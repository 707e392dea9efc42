import AuditLog.Proofs.SearchHandlers

/-! The calls for defaults. They are set beside the program that makes them, which they determine: one
call for each parameter that is not settled, in the order of registration, seeing what those before
it gave. -/
namespace AuditLog.Search

/-- A parameter asked to stand in: what the query held when it was asked, and its answer. -/
structure Call where
  handler : ParameterHandler
  shown : Query
  answer : Option (Argument × List Condition)

namespace Call

def conditions (call : Call) : List Condition := (call.answer.map Prod.snd).getD []

def used? (call : Call) : Option Argument := call.answer.map Prod.fst

variable (h : ParameterHandler) (shown : Query) (used : Argument) (added : List Condition)

@[simp] theorem conditions_none : (⟨h, shown, none⟩ : Call).conditions = [] := rfl

@[simp] theorem conditions_some : (⟨h, shown, some (used, added)⟩ : Call).conditions = added := rfl

@[simp] theorem used?_none : (⟨h, shown, none⟩ : Call).used? = none := rfl

@[simp] theorem used?_some : (⟨h, shown, some (used, added)⟩ : Call).used? = some used := rfl

end Call

namespace Compiler

/-- The calls that `standIns` makes, in their order. -/
def calls (now : Instant) (session : Session) (given : List Argument) (query : Query) :
    List ParameterHandler → Except SearchError (List Call)
  | [] => .ok []
  | h :: rest =>
    if isSettled session given h then calls now session given query rest
    else do
      let call : Call := ⟨h, query, ← h.standIn now session query⟩
      return call :: (← calls now session given (query.add call.conditions) rest)

section Calls

variable {now : Instant} {session : Session} {given : List Argument}

theorem add_add (query : Query) (first second : List Condition) :
    (query.add first).add second = query.add (first ++ second) := by
  simp [Query.add]

theorem add_nil (query : Query) : query.add [] = query := by
  simp [Query.add]

/-- The calls decide how standing in ends. -/
theorem standIns_eq (handlers : List ParameterHandler) (query : Query) :
    standIns now session given query handlers =
      (calls now session given query handlers).map fun calls =>
        (query.add (calls.flatMap Call.conditions), calls.filterMap Call.used?) := by
  induction handlers generalizing query with
  | nil => simp [standIns, calls, Except.map, add_nil]
  | cons h rest ih =>
    rw [standIns, calls]
    split
    next => exact ih query
    next =>
      cases h.standIn now session query with
      | error e => rfl
      | ok answer =>
        cases answer with
        | none =>
          simp only [bind, Except.bind, ih, Call.conditions_none, add_nil]
          cases calls now session given query rest with
          | error e => rfl
          | ok later => simp [Except.map, pure, Except.pure, List.filterMap_cons]
        | some pair =>
          obtain ⟨used, added⟩ := pair
          simp only [bind, Except.bind, ih, Call.conditions_some]
          cases calls now session given (query.add added) rest with
          | error e => rfl
          | ok later => simp [Except.map, pure, Except.pure, add_add]

/-- One call for each parameter that is not settled; it sees the conditions of those before it. -/
theorem calls_spec {handlers : List ParameterHandler} {query : Query} {made : List Call}
    (ended : calls now session given query handlers = .ok made) :
    made.map Call.handler = handlers.filter (!isSettled session given ·) ∧
      ∀ before call after, made = before ++ call :: after →
        call.shown = query.add (before.flatMap Call.conditions) ∧
        call.handler.standIn now session call.shown = .ok call.answer := by
  induction handlers generalizing query made with
  | nil =>
    cases ended
    refine ⟨rfl, ?_⟩
    intro before call after parts
    exact absurd parts.symm (by simp)
  | cons h rest ih =>
    rw [calls] at ended
    split at ended
    next settled =>
      obtain ⟨order, each⟩ := ih ended
      refine ⟨?_, each⟩
      rw [order, List.filter_cons_of_neg (by simp [settled])]
    next unsettled =>
      cases asked : h.standIn now session query with
      | error e =>
        rw [asked] at ended
        cases ended
      | ok answer =>
        simp only [asked, bind, Except.bind] at ended
        split at ended
        next => cases ended
        next later remaining =>
          cases ended
          obtain ⟨order, each⟩ := ih remaining
          constructor
          · rw [List.map_cons, order, List.filter_cons_of_pos (by simp [unsettled])]
          · intro before call after parts
            cases before with
            | nil =>
              cases parts
              exact ⟨(add_nil query).symm, asked⟩
            | cons first before =>
              obtain ⟨rfl, rest⟩ := List.cons.inj parts
              obtain ⟨shown, answered⟩ := each before call after rest
              refine ⟨?_, answered⟩
              rw [shown, List.flatMap_cons, add_add]

theorem calls_error {handlers : List ParameterHandler} {query : Query} {e : SearchError}
    (failed : calls now session given query handlers = .error e) :
    ∃ h ∈ handlers, isSettled session given h = false ∧
      ∃ shown, h.standIn now session shown = .error e := by
  induction handlers generalizing query with
  | nil => cases failed
  | cons h rest ih =>
    have later {shown : Query} (failed : calls now session given shown rest = .error e) :
        ∃ other ∈ h :: rest, isSettled session given other = false ∧
          ∃ shown, other.standIn now session shown = .error e := by
      obtain ⟨other, member, asked⟩ := ih failed
      exact ⟨other, List.mem_cons_of_mem _ member, asked⟩
    rw [calls] at failed
    split at failed
    next => exact later failed
    next unsettled =>
      cases asked : h.standIn now session query with
      | error other =>
        rw [asked] at failed
        cases failed
        exact ⟨h, List.mem_cons_self, (Bool.not_eq_true _).mp unsettled, query, asked⟩
      | ok answer =>
        simp only [asked, bind, Except.bind] at failed
        split at failed
        next other stopped =>
          cases failed
          exact later stopped
        next => cases failed

end Calls

/-- The calls for defaults once the words have been taken; none where there are no defaults. -/
def callsAfter (compiler : Compiler) (now : Instant) (p : Progress) :
    Except SearchError (List Call) :=
  if compiler.settings.defaultsEnabled then
    calls now p.session p.given p.query compiler.registry.parameters
  else .ok []

theorem finish_eq (compiler : Compiler) (now : Instant) (p : Progress) :
    compiler.finish now p = (compiler.callsAfter now p).map fun calls =>
      ⟨p.query.add (calls.flatMap Call.conditions), p.pending, calls.filterMap Call.used?,
        compiler.settings.timeout⟩ := by
  unfold finish callsAfter
  split
  next =>
    rw [standIns_eq]
    cases calls now p.session p.given p.query compiler.registry.parameters <;> rfl
  next => simp [Except.map, bind, Except.bind, pure, Except.pure, add_nil]

/-- A search is accepted when its words have been taken and all calls for defaults answered. -/
theorem prepare_accepted {compiler : Compiler} {now : Instant} {first session : Session}
    {words : List String} {compiled : Compiled}
    (prepared : compiler.prepare now first words = (session, .ok compiled)) :
    ∃ p made, (compiler.start first).run now compiler.registry words = (p, none) ∧
      p.session = session ∧ compiler.callsAfter now p = .ok made ∧
      compiled = ⟨p.query.add (made.flatMap Call.conditions), p.pending,
        made.filterMap Call.used?, compiler.settings.timeout⟩ := by
  unfold prepare at prepared
  split at prepared
  next => cases prepared
  next p taken =>
    obtain ⟨same, finished⟩ := Prod.mk.inj prepared
    rw [finish_eq] at finished
    obtain ⟨made, asked, rfl⟩ := ok_of_map finished
    exact ⟨p, made, taken, same, asked, rfl⟩

theorem callsAfter_spec {compiler : Compiler} {now : Instant} {p : Progress} {made : List Call}
    (asked : compiler.callsAfter now p = .ok made) :
    made.map Call.handler = (if compiler.settings.defaultsEnabled then
        compiler.registry.parameters.filter (!isSettled p.session p.given ·) else []) ∧
      ∀ before call after, made = before ++ call :: after →
        call.shown = p.query.add (before.flatMap Call.conditions) ∧
        call.handler.standIn now p.session call.shown = .ok call.answer := by
  unfold callsAfter at asked
  split at asked
  next enabled =>
    rw [if_pos enabled]
    exact calls_spec asked
  next disabled =>
    cases asked
    rw [if_neg disabled]
    refine ⟨rfl, ?_⟩
    intro before call after parts
    exact absurd parts.symm (by simp)

theorem callsAfter_error {compiler : Compiler} {now : Instant} {p : Progress} {e : SearchError}
    (failed : compiler.callsAfter now p = .error e) :
    compiler.settings.defaultsEnabled = true ∧
      ∃ h ∈ compiler.registry.parameters, isSettled p.session p.given h = false ∧
        ∃ shown, h.standIn now p.session shown = .error e := by
  unfold callsAfter at failed
  split at failed
  next enabled => exact ⟨enabled, calls_error failed⟩
  next => cases failed

theorem prepare_error {compiler : Compiler} {now : Instant} {first : Session}
    {words : List String} {e : SearchError}
    (refused : (compiler.prepare now first words).2.map (fun _ => ()) = .error e) :
    compiler.prepare now first words = ((compiler.prepare now first words).1, .error e) := by
  generalize compiler.prepare now first words = result at refused
  obtain ⟨session, outcome⟩ := result
  cases outcome with
  | error other =>
    cases refused
    rfl
  | ok compiled => cases refused

theorem prepare_isOk {compiler : Compiler} {now : Instant} {first : Session}
    {words : List String} (accepted : (compiler.prepare now first words).2.isOk = true) :
    ∃ compiled, compiler.prepare now first words =
      ((compiler.prepare now first words).1, .ok compiled) := by
  generalize compiler.prepare now first words = result at accepted
  obtain ⟨session, outcome⟩ := result
  cases outcome with
  | error e => cases accepted
  | ok compiled => exact ⟨compiled, rfl⟩

end Compiler
end AuditLog.Search
