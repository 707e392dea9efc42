import AuditLog.Proofs.ArgumentConflicts

/-! What the words of a search do, whatever stands around them. With the built-in handlers a word
sees of the search so far the requester only, and a radius or a world also whether the other was
given. So words are taken exactly if each is taken on its own and no radius meets a world; they add
what each adds on its own, in their order, and of them only flags change the session. -/
namespace AuditLog.Search

open Parameters

/-- Of a session the parameter sees the requester. -/
def ParameterHandler.Aloof (h : ParameterHandler) : Prop :=
  ∀ now first second argument, first.requester = second.requester →
    h.build now first argument = h.build now second argument

/-- The flag adds nothing to the search, and is refused in every session or in none. -/
structure FlagHandler.Silent (h : FlagHandler) : Prop where
  adds : ∀ session label value after c, h.apply session label value = .ok (after, c) → c = .none
  refuses : ∀ first second label value e, h.apply first label value = .error e →
    h.apply second label value = .error e

/-- The aliases of what may not have been given before an argument under this label. -/
def rivals (label : String) : List String :=
  if answersTo radiusAliases label then worldAliases
  else if answersTo worldAliases label then radiusAliases
  else []

/-- What the words of a search do does not hang on what was taken before them, but for a radius and
a world. -/
structure Registry.Steady (registry : Registry) : Prop where
  aloof : ∀ h ∈ registry.parameters, h.Aloof
  mild : ∀ h ∈ registry.flags, h.Mild
  silent : ∀ h ∈ registry.flags, h.Silent
  conflicts : ∀ h ∈ registry.parameters, ∀ argument other, h.handles argument.label = true →
    h.conflicts argument other = answersTo (rivals argument.label) other.label

section Builtin

namespace Flags

theorem silent_plain (name : String) (aliases : List String) (change : Session → Session) :
    (plain name aliases change).Silent := by
  constructor
  · rintro session label value after c ⟨⟩
    rfl
  · rintro first second label value e ⟨⟩

theorem silent_order : order.Silent := by
  constructor
  · intro session label value after c applied
    simp only [order] at applied
    split at applied
    · cases applied
    · split at applied
      · cases applied
        rfl
      · cases applied
  · intro first second label value e refused
    simp only [order] at refused ⊢
    split at refused
    · exact refused
    · split at refused
      · cases refused
      · exact refused

theorem silent_ignoreDefault : ignoreDefault.Silent := by
  constructor
  · intro session label value after c applied
    simp only [ignoreDefault] at applied
    split at applied <;> cases applied <;> rfl
  · intro first second label value e refused
    simp only [ignoreDefault] at refused
    split at refused <;> cases refused

end Flags

namespace Registry

theorem silent_builtin {settings : Settings} {h : FlagHandler}
    (member : h ∈ builtinFlags settings) : h.Silent := by
  simp only [builtinFlags, List.mem_append, List.mem_cons, List.not_mem_nil, or_false] at member
  rcases member with (rfl | rfl | rfl | rfl | rfl) | defaults
  · exact Flags.silent_plain _ _ _
  · exact Flags.silent_plain _ _ _
  · exact Flags.silent_plain _ _ _
  · exact Flags.silent_plain _ _ _
  · exact Flags.silent_order
  · split at defaults
    · simp only [List.mem_cons, List.not_mem_nil, or_false] at defaults
      rcases defaults with rfl | rfl
      · exact Flags.silent_ignoreDefault
      · exact Flags.silent_plain _ _ _
    · cases defaults

theorem aloof_builtin {settings : Settings} {players : Players} {h : ParameterHandler}
    (member : h ∈ builtinParameters settings players) : h.Aloof := by
  intro now first second argument same
  simp only [builtinParameters, List.mem_cons, List.not_mem_nil, or_false] at member
  rcases member with rfl | rfl | rfl | rfl | rfl | rfl | rfl | rfl | rfl | rfl | rfl | rfl | rfl |
    rfl | rfl | rfl
  case inr.inr.inr.inl => simp only [radius, same]
  all_goals rfl

/-- Which parameter may conflict is seen from its name. -/
theorem conflicts_named {settings : Settings} {players : Players} {h : ParameterHandler}
    (member : h ∈ builtinParameters settings players) (argument other : Argument) :
    h.conflicts argument other = answersTo
      (if h.name = "radius" then worldAliases else if h.name = "world" then radiusAliases else [])
      other.label := by
  simp only [builtinParameters, List.mem_cons, List.not_mem_nil, or_false] at member
  rcases member with rfl | rfl | rfl | rfl | rfl | rfl | rfl | rfl | rfl | rfl | rfl | rfl | rfl |
    rfl | rfl | rfl <;> rfl

theorem names_nodup (settings : Settings) (players : Players) :
    ((builtinParameters settings players).map ParameterHandler.name).Nodup := by
  have fixed : (builtinParameters settings players).map ParameterHandler.name =
      (builtinParameters .standard default).map ParameterHandler.name := by
    simp only [builtinParameters, List.map]
    rfl
  rw [fixed]
  decide +kernel

theorem conflicts_builtin {settings : Settings} {players : Players} {h : ParameterHandler}
    (member : h ∈ builtinParameters settings players) (argument other : Argument)
    (handles : h.handles argument.label = true) :
    h.conflicts argument other = answersTo (rivals argument.label) other.label := by
  have named {k : ParameterHandler} (known : k ∈ builtinParameters settings players) :
      h.name = k.name ↔ k.handles argument.label = true := by
    constructor
    · intro same
      rw [← List.inj_on_of_nodup_map (names_nodup settings players) member known same]
      exact handles
    · intro handles'
      rw [handler_unique member known handles handles']
  have near : h.name = "radius" ↔ answersTo radiusAliases argument.label = true :=
    named (radius_mem settings players)
  have far : h.name = "world" ↔ answersTo worldAliases argument.label = true :=
    named (world_mem settings players)
  rw [conflicts_named member, rivals]
  simp only [near, far]

theorem steady_builtin (settings : Settings) (players : Players) :
    (builtin settings players).Steady where
  aloof _ member := aloof_builtin member
  mild _ member := mild_builtin member
  silent _ member := silent_builtin member
  conflicts _ member argument other handles := conflicts_builtin member argument other handles

end Registry
end Builtin

namespace Progress

/-- Nothing taken yet, in a new session of the requester. -/
def fresh (requester : Requester) : Progress := ⟨.start requester .utc, ⟨[], 0⟩, [], []⟩

end Progress

/-- The word on its own, asked by this requester. -/
def alone (now : Instant) (registry : Registry) (requester : Requester) (word : String) :
    Except SearchError Progress :=
  (Progress.fresh requester).step now registry word

def conditionsOf (now : Instant) (registry : Registry) (requester : Requester) (word : String) :
    List Condition :=
  match alone now registry requester word with
  | .ok p => p.query.conditions
  | .error _ => []

def lookupsOf (now : Instant) (registry : Registry) (requester : Requester) (word : String) :
    List Lookup :=
  match alone now registry requester word with
  | .ok p => p.pending
  | .error _ => []

def Registry.sessionAfter (registry : Registry) (session : Session) (word : String) : Session :=
  match Word.parse? word with
  | some (.flag label value) =>
    match registry.flag? label with
    | some h =>
      match h.apply session label value with
      | .ok (changed, _) => changed
      | .error _ => session
    | none => session
  | _ => session

namespace Progress

/-- What is held after a word that on its own leads to `r`. -/
def extended (registry : Registry) (p : Progress) (word : String) (r : Progress) : Progress where
  session := registry.sessionAfter p.session word
  query := p.query.add r.query.conditions
  pending := p.pending ++ r.pending
  given := gather p.given (argument? word).toList

/-- What is held after words that are taken. -/
def after (now : Instant) (registry : Registry) (p : Progress) (words : List String) :
    Progress where
  session := words.foldl registry.sessionAfter p.session
  query := p.query.add (words.flatMap (conditionsOf now registry p.session.requester))
  pending := p.pending ++ words.flatMap (lookupsOf now registry p.session.requester)
  given := gather p.given (arguments words)

/-- Each word is taken on its own, and none meets a rival, given before or among the words. -/
structure Takes (now : Instant) (registry : Registry) (p : Progress) (words : List String) :
    Prop where
  alone : ∀ word ∈ words, (alone now registry p.session.requester word).isOk = true
  before : ∀ argument ∈ arguments words,
    p.given.any (answersTo (rivals argument.label) ·.label) = false
  among : (arguments words).Pairwise fun first second =>
    answersTo (rivals second.label) first.label = false

variable {now : Instant} {registry : Registry} {p q : Progress} {word : String}

theorem arguments_singleton (word : String) : arguments [word] = (argument? word).toList := by
  cases found : argument? word <;> simp [arguments, found]

theorem step_blank (parsed : Word.parse? word = none) : p.step now registry word = .ok p := by
  simp only [step, parsed]

theorem step_incomplete {name : String} (parsed : Word.parse? word = some (.incomplete name)) :
    p.step now registry word = .error (.emptyValue name) := by
  simp only [step, parsed]

theorem argument?_eq_none (parsed : ∀ argument, Word.parse? word ≠ some (.parameter argument)) :
    argument? word = none := by
  rw [Option.eq_none_iff_forall_ne_some]
  intro argument found
  exact parsed argument (argument?_eq_some.mp found)

theorem takes_singleton : p.Takes now registry [word] ↔
    (Search.alone now registry p.session.requester word).isOk = true ∧
      ∀ argument, argument? word = some argument →
        p.given.any (answersTo (rivals argument.label) ·.label) = false := by
  constructor
  · intro takes
    refine ⟨takes.alone word (List.mem_singleton_self word), ?_⟩
    intro argument found
    apply takes.before
    simp [arguments_singleton, found]
  · rintro ⟨taken, before⟩
    refine ⟨?_, ?_, ?_⟩
    · intro other member
      rw [List.mem_singleton.mp member]
      exact taken
    · intro argument member
      rw [arguments_singleton, Option.mem_toList] at member
      exact before argument member
    · rw [arguments_singleton]
      cases argument? word <;> simp

theorem after_singleton {r : Progress}
    (taken : Search.alone now registry p.session.requester word = .ok r) :
    p.after now registry [word] = p.extended registry word r := by
  simp [after, extended, conditionsOf, lookupsOf, taken, arguments_singleton]

theorem free_iff (steady : registry.Steady) {argument : Argument} {h : ParameterHandler}
    (found : registry.parameter? argument.label = some h) (given : List Argument) :
    given.find? (h.conflicts argument) = none ↔
      given.any (answersTo (rivals argument.label) ·.label) = false := by
  obtain ⟨member, handles⟩ := Registry.parameter?_some found
  simp only [List.find?_eq_none, List.any_eq_false,
    steady.conflicts h member argument _ handles]

/-- Flags are taken or refused as on their own. -/
theorem step_flag (steady : registry.Steady) {label : String} {value : Option String}
    (parsed : Word.parse? word = some (.flag label value)) :
    p.step now registry word = (Search.alone now registry p.session.requester word).map
      (p.extended registry word) := by
  have single : argument? word = none := argument?_eq_none (by simp [parsed])
  simp only [Search.alone, step, parsed, applyFlag]
  cases found : registry.flag? label with
  | none => rfl
  | some h =>
    have silent := steady.silent h (Registry.flag?_some found).1
    have asking : (fresh p.session.requester).session.requester = p.session.requester := rfl
    simp only [asking]
    cases h.allows p.session.requester with
    | false => rfl
    | true =>
      cases value.filter (!h.accepts ·) with
      | some refused => rfl
      | none =>
        cases applied : h.apply p.session label value with
        | error e =>
          have refused := silent.refuses _ (fresh p.session.requester).session _ _ _ applied
          simp only [refused]
          rfl
        | ok result =>
          cases alike : h.apply (fresh p.session.requester).session label value with
          | error e => cases applied.symm.trans (silent.refuses _ _ _ _ _ alike)
          | ok other =>
            have quiet := silent.adds _ _ _ _ _ applied
            have quiet' := silent.adds _ _ _ _ _ alike
            simp [Except.map, add, extended, fresh, Contribution.none, Registry.sessionAfter,
              parsed, found, applied, single, quiet, quiet', gather, Query.add]

/-- A word that meets no rival is taken or refused as on its own. -/
theorem step_eq (steady : registry.Steady) (free : ∀ argument, argument? word = some argument →
      p.given.any (answersTo (rivals argument.label) ·.label) = false) :
    p.step now registry word = (Search.alone now registry p.session.requester word).map
      (p.extended registry word) := by
  cases parsed : Word.parse? word with
  | none =>
    have single : argument? word = none := argument?_eq_none (by simp [parsed])
    have taken : Search.alone now registry p.session.requester word = .ok (fresh _) :=
      step_blank parsed
    rw [step_blank parsed, taken]
    simp [Except.map, extended, Registry.sessionAfter, parsed, single, fresh, gather, Query.add]
  | some read =>
    cases read with
    | incomplete name =>
      have refused : Search.alone now registry p.session.requester word = .error _ :=
        step_incomplete parsed
      rw [step_incomplete parsed, refused]
      rfl
    | flag label value => exact step_flag steady parsed
    | parameter argument =>
      have single : argument? word = some argument := argument?_eq_some.mpr parsed
      simp only [Search.alone, step, parsed, applyParameter]
      cases found : registry.parameter? argument.label with
      | none => rfl
      | some h =>
        have known := (Registry.parameter?_some found).1
        have asking : (fresh p.session.requester).session.requester = p.session.requester := rfl
        have built := steady.aloof h known now _ p.session argument asking
        have none : (fresh p.session.requester).given.find? (h.conflicts argument) = none := rfl
        simp only [asking, built, none, (free_iff steady found p.given).mpr (free argument single)]
        cases h.allows p.session.requester with
        | false => rfl
        | true =>
          cases h.accepts now argument.value with
          | false => rfl
          | true =>
            cases h.build now p.session argument with
            | error e => rfl
            | ok c =>
              simp [Except.map, add, extended, fresh, Registry.sessionAfter, parsed, single, gather,
                Query.add]

/-- A word is taken exactly if it is on its own and meets no rival. -/
theorem step_iff (steady : registry.Steady) : p.step now registry word = .ok q ↔
    p.Takes now registry [word] ∧ q = p.after now registry [word] := by
  rw [takes_singleton]
  constructor
  · intro taken
    have free : ∀ argument, argument? word = some argument →
        p.given.any (answersTo (rivals argument.label) ·.label) = false := by
      intro argument single
      have parsed := argument?_eq_some.mp single
      rcases step_cases taken with ⟨blank, -⟩ | ⟨_, _, _, _, _, flag, -⟩ |
        ⟨_, h, _, asked, found, free, -⟩
      · cases parsed.symm.trans blank
      · cases parsed.symm.trans flag
      · cases parsed.symm.trans asked
        exact (free_iff steady found p.given).mp free
    rw [step_eq steady free] at taken
    obtain ⟨r, alone, rfl⟩ := ok_of_map taken
    rw [after_singleton alone, alone]
    exact ⟨⟨rfl, free⟩, rfl⟩
  · rintro ⟨⟨taken, free⟩, rfl⟩
    cases alone : Search.alone now registry p.session.requester word with
    | error e =>
      rw [alone] at taken
      cases taken
    | ok r =>
      rw [step_eq steady free, after_singleton alone, alone]
      rfl

theorem requester_sessionAfter (steady : registry.Steady) (session : Session) (word : String) :
    (registry.sessionAfter session word).requester = session.requester := by
  unfold Registry.sessionAfter
  split
  next label value _ =>
    split
    next h found =>
      obtain ⟨member, handles⟩ := Registry.flag?_some found
      split
      next changed c applied => exact (steady.mild h member _ _ _ _ _ handles applied).1
      next => rfl
    next => rfl
  next => rfl

theorem any_replace (aliases : List String) (argument : Argument) (given : List Argument) :
    (replace argument given).any (answersTo aliases ·.label) =
      (given.any (answersTo aliases ·.label) || answersTo aliases argument.label) := by
  induction given with
  | nil => simp [replace]
  | cons other rest ih =>
    unfold replace
    split
    next same =>
      have answers := answersTo_congr (sameLetters_iff.mp same) aliases
      cases here : answersTo aliases argument.label <;> simp [answers, here]
    next => simp [ih, Bool.or_assoc]

theorem any_gather_append (aliases : List String) (given more : List Argument) :
    (gather given more).any (answersTo aliases ·.label) =
      (given.any (answersTo aliases ·.label) || more.any (answersTo aliases ·.label)) := by
  induction more generalizing given with
  | nil => simp [gather]
  | cons argument rest ih =>
    have first : gather given (argument :: rest) = gather (replace argument given) rest := rfl
    rw [first, ih, any_replace, List.any_cons, Bool.or_assoc]

theorem requester_after (steady : registry.Steady) (p : Progress) (words : List String) :
    (p.after now registry words).session.requester = p.session.requester := by
  have kept (session : Session) :
      (words.foldl registry.sessionAfter session).requester = session.requester := by
    induction words generalizing session with
    | nil => rfl
    | cons word rest ih => exact (ih _).trans (requester_sessionAfter steady session word)
  exact kept p.session

section Append

variable {xs ys : List String}

theorem after_append (steady : registry.Steady) (p : Progress) (xs ys : List String) :
    p.after now registry (xs ++ ys) =
      (p.after now registry xs).after now registry ys := by
  have same : (p.after now registry xs).session.requester = p.session.requester :=
    requester_after steady p xs
  simp only [after] at same ⊢
  simp only [same, List.foldl_append, List.flatMap_append, arguments_append, gather_append,
    List.append_assoc, Query.add]

theorem takes_append (steady : registry.Steady) : p.Takes now registry (xs ++ ys) ↔
    p.Takes now registry xs ∧ (p.after now registry xs).Takes now registry ys := by
  have same : (p.after now registry xs).session.requester = p.session.requester :=
    requester_after steady p xs
  have free (b : Argument) :
      (p.after now registry xs).given.any (answersTo (rivals b.label) ·.label) = false ↔
        p.given.any (answersTo (rivals b.label) ·.label) = false ∧
          ∀ a ∈ arguments xs, answersTo (rivals b.label) a.label = false := by
    simp only [after, any_gather_append, Bool.or_eq_false_iff, List.any_eq_false, Bool.not_eq_true]
  constructor
  · intro takes
    have parts := takes.among
    rw [arguments_append, List.pairwise_append] at parts
    obtain ⟨first, second, across⟩ := parts
    have before := takes.before
    rw [arguments_append, List.forall_mem_append] at before
    obtain ⟨alone, alone'⟩ := List.forall_mem_append.mp takes.alone
    refine ⟨⟨alone, before.1, first⟩, ⟨same ▸ alone', ?_, second⟩⟩
    intro b member
    exact (free b).mpr ⟨before.2 b member, fun a known => across a known b member⟩
  · rintro ⟨first, second⟩
    have alone := second.alone
    rw [same] at alone
    refine ⟨List.forall_mem_append.mpr ⟨first.alone, alone⟩, ?_, ?_⟩
    · rw [arguments_append]
      exact List.forall_mem_append.mpr
        ⟨first.before, fun b member => ((free b).mp (second.before b member)).1⟩
    · rw [arguments_append, List.pairwise_append]
      refine ⟨first.among, second.among, ?_⟩
      intro a known b member
      exact ((free b).mp (second.before b member)).2 a known

end Append

/-- All words are taken exactly if each is on its own and none meets a rival; this is what they
leave. -/
theorem run_iff (steady : registry.Steady) {words : List String} :
    p.run now registry words = (q, none) ↔
      p.Takes now registry words ∧ q = p.after now registry words := by
  induction words generalizing p with
  | nil =>
    have nothing : p.Takes now registry [] :=
      ⟨by simp, by simp [arguments], by simp [arguments]⟩
    have unchanged : p.after now registry [] = p := by
      simp [after, Query.add, gather, arguments]
    rw [run, unchanged, and_iff_right nothing]
    simp [eq_comm]
  | cons word rest ih =>
    have parts : word :: rest = [word] ++ rest := rfl
    rw [parts, takes_append steady, after_append steady, and_assoc, ← ih]
    constructor
    · intro taken
      rw [List.singleton_append, run] at taken
      split at taken
      next r stepped =>
        obtain ⟨takes, rfl⟩ := (step_iff steady).mp stepped
        exact ⟨takes, taken⟩
      next => cases taken
    · rintro ⟨takes, taken⟩
      rw [List.singleton_append, run, (step_iff steady).mpr ⟨takes, rfl⟩]
      exact taken

end Progress

theorem Compiler.prepare_ok_iff {compiler : Compiler} {now : Instant} {first last : Session}
    {words : List String} {compiled : Compiled} :
    compiler.prepare now first words = (last, .ok compiled) ↔
      ∃ p, (compiler.start first).run now compiler.registry words = (p, none) ∧
        p.session = last ∧ compiler.finish now p = .ok compiled := by
  unfold Compiler.prepare
  split
  next p e refused => simp [refused]
  next p taken => simp [taken]

end AuditLog.Search
