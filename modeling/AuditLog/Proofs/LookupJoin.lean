import AuditLog.Proofs.IgnoredDefaults

/-! What a search gets from the look-ups that it waits for, in whatever order they end. All of them
together give their conditions in the order of the words; if one fails, its error is seen at once as
long as the look-ups are few. Of many the results are taken in turn, and then one that never ends
hides the failures behind it. -/
namespace AuditLog

namespace Search

namespace Lookup

/-- Every look-up that ends has its place in the order. -/
def Covers (finish : List Nat) (lookups : List Lookup) : Prop :=
  ∀ position lookup, lookups[position]? = some lookup → lookup ≠ .never → position ∈ finish

/-- The first look-up that finds nothing is one that never ends. -/
def Blocked (lookups : List Lookup) : Prop :=
  ∃ each rest, lookups = List.map .found each ++ .never :: rest

theorem covers_range (lookups : List Lookup) : Covers (List.range lookups.length) lookups := by
  intro position lookup known _
  obtain ⟨inside, -⟩ := List.getElem?_eq_some_iff.mp known
  exact List.mem_range.mpr inside

/-- Either all look-ups find something, or there is a first one that does not. -/
theorem found_or_first (lookups : List Lookup) : (∃ each, lookups = List.map .found each) ∨
    (∃ each e rest, lookups = List.map .found each ++ .failed e :: rest) ∨ Blocked lookups := by
  induction lookups with
  | nil => exact .inl ⟨[], rfl⟩
  | cons first rest ih =>
    cases first with
    | failed e => exact .inr (.inl ⟨[], e, rest, rfl⟩)
    | never => exact .inr (.inr ⟨[], rest, rfl⟩)
    | found conditions =>
      rcases ih with ⟨each, rfl⟩ | ⟨each, e, after, rfl⟩ | ⟨each, after, rfl⟩
      · exact .inl ⟨conditions :: each, rfl⟩
      · exact .inr (.inl ⟨conditions :: each, e, after, rfl⟩)
      · exact .inr (.inr ⟨conditions :: each, after, rfl⟩)

/-- Of the look-ups that fail, the one with this error ends first. -/
def FailsFirst (finish : List Nat) (lookups : List Lookup) (e : SearchError) : Prop :=
  ∃ before position after, finish = before ++ position :: after ∧
    lookups[position]? = some (.failed e) ∧
    ∀ other ∈ before, ∀ e', lookups[other]? ≠ some (.failed e')

section Turn

variable {timeout : Nat}

theorem inTurn_append (each : List (List Condition)) (rest : List Lookup) :
    inTurn timeout (each.map .found ++ rest) =
      (inTurn timeout rest).map (each.flatten ++ ·) := by
  induction each with
  | nil =>
    simp only [List.map_nil, List.nil_append, List.flatten_nil]
    cases inTurn timeout rest <;> rfl
  | cons conditions each ih =>
    rw [List.map_cons, List.cons_append, inTurn, ih]
    cases inTurn timeout rest with
    | error e => rfl
    | ok others => simp [Except.map, bind, Except.bind, pure, Except.pure]

theorem inTurn_found (each : List (List Condition)) :
    inTurn timeout (each.map .found) = .ok each.flatten := by
  rw [← List.append_nil (List.map found each), inTurn_append]
  simp [inTurn, Except.map]

theorem inTurn_failed (each : List (List Condition)) (e : SearchError) (rest : List Lookup) :
    inTurn timeout (each.map .found ++ .failed e :: rest) = .error e := by
  rw [inTurn_append]
  rfl

theorem inTurn_blocked {lookups : List Lookup} (blocked : Blocked lookups) :
    inTurn timeout lookups = .error (.timeout timeout) := by
  obtain ⟨each, rest, rfl⟩ := blocked
  rw [inTurn_append]
  rfl

theorem inTurn_ok_iff {lookups : List Lookup} {conditions : List Condition} :
    inTurn timeout lookups = .ok conditions ↔
      ∃ each, lookups = List.map .found each ∧ conditions = each.flatten := by
  constructor
  · intro ended
    rcases found_or_first lookups with ⟨each, rfl⟩ | ⟨each, e, rest, rfl⟩ | blocked
    · rw [inTurn_found] at ended
      exact ⟨each, rfl, (Except.ok.inj ended).symm⟩
    · rw [inTurn_failed] at ended
      cases ended
    · rw [inTurn_blocked blocked] at ended
      cases ended
  · rintro ⟨each, rfl, rfl⟩
    exact inTurn_found each

end Turn

section Join

variable {timeout : Nat} {finish : List Nat} {lookups : List Lookup}

theorem failure?_eq_some {lookup : Lookup} {e : SearchError} :
    lookup.failure? = some e ↔ lookup = .failed e := by
  cases lookup <;> simp [failure?]

theorem firstFailure_iff {e : SearchError} :
    (finish.findSome? fun position => lookups[position]?.bind failure?) = some e ↔
      FailsFirst finish lookups e := by
  have failed (position : Nat) (e : SearchError) :
      lookups[position]?.bind failure? = some e ↔ lookups[position]? = some (.failed e) := by
    rw [Option.bind_eq_some_iff]
    simp only [failure?_eq_some]
    exact ⟨fun ⟨_, known, same⟩ => same ▸ known, fun known => ⟨_, known, rfl⟩⟩
  simp only [List.findSome?_eq_some_iff, FailsFirst, failed, Option.eq_none_iff_forall_ne_some,
    ne_eq]

theorem FailsFirst.mem {e : SearchError} (first : FailsFirst finish lookups e) :
    .failed e ∈ lookups := by
  obtain ⟨_, position, _, -, known, -⟩ := first
  exact List.mem_of_getElem? known

theorem exists_failsFirst (covers : Covers finish lookups) {e : SearchError}
    (failed : .failed e ∈ lookups) : ∃ e', FailsFirst finish lookups e' := by
  obtain ⟨position, known⟩ := List.getElem?_of_mem failed
  simp only [← firstFailure_iff, ← Option.isSome_iff_exists, List.findSome?_isSome_iff]
  refine ⟨position, covers position _ known (by simp), ?_⟩
  rw [known]
  rfl

/-- A join succeeds exactly if all look-ups find something; it keeps their order. -/
theorem join_ok_iff {conditions : List Condition} : join timeout finish lookups = .ok conditions ↔
    ∃ each, lookups = List.map .found each ∧ conditions = each.flatten := by
  unfold join
  split
  next =>
    split
    next e first =>
      have failed := (firstFailure_iff.mp first).mem
      constructor
      · intro never
        cases never
      · rintro ⟨each, rfl, -⟩
        simp at failed
    next => exact inTurn_ok_iff
  next => exact inTurn_ok_iff

/-- Few look-ups fail as soon as one of them does. -/
theorem join_few (few : lookups.length ≤ watched) {e : SearchError}
    (first : FailsFirst finish lookups e) : join timeout finish lookups = .error e := by
  rw [join, if_pos few, firstFailure_iff.mpr first]

/-- Many are seen in their own order. -/
theorem join_many (many : watched < lookups.length) :
    join timeout finish lookups = inTurn timeout lookups :=
  if_neg (Nat.not_le.mpr many)

theorem join_endless (sound : ∀ e, .failed e ∉ lookups) (endless : .never ∈ lookups) :
    join timeout finish lookups = .error (.timeout timeout) := by
  have blocked : Blocked lookups := by
    rcases found_or_first lookups with ⟨each, rfl⟩ | ⟨each, e, rest, rfl⟩ | blocked
    · simp at endless
    · exact absurd (by simp) (sound e)
    · exact blocked
  have none : (finish.findSome? fun position => lookups[position]?.bind failure?) = none := by
    rw [Option.eq_none_iff_forall_ne_some]
    intro e first
    exact sound e (firstFailure_iff.mp first).mem
  unfold join
  rw [none]
  split <;> exact inTurn_blocked blocked

end Join
end Lookup

namespace Compiled

/-- Waits for all look-ups, which end in this order. -/
def resolveAs (c : Compiled) (finish : List Nat) : Except SearchError Query :=
  (Lookup.join c.timeout finish c.pending).map c.query.add

theorem resolve_eq (c : Compiled) : c.resolve = c.resolveAs (List.range c.pending.length) := rfl

variable {c : Compiled} {finish : List Nat}

theorem resolveAs_ok_iff {query : Query} : c.resolveAs finish = .ok query ↔
    ∃ each, c.pending = List.map .found each ∧ query = c.query.add each.flatten := by
  constructor
  · intro resolved
    obtain ⟨conditions, joined, rfl⟩ := ok_of_map resolved
    obtain ⟨each, found, rfl⟩ := Lookup.join_ok_iff.mp joined
    exact ⟨each, found, rfl⟩
  · rintro ⟨each, found, rfl⟩
    rw [resolveAs, Lookup.join_ok_iff.mpr ⟨each, found, rfl⟩]
    rfl

theorem resolveAs_error {e : SearchError}
    (failed : Lookup.join c.timeout finish c.pending = .error e) :
    c.resolveAs finish = .error e := by
  rw [resolveAs, failed]
  rfl

end Compiled

/-- The flag leaves the query of the session as it was. -/
def FlagHandler.KeepsQuery (h : FlagHandler) : Prop :=
  ∀ session label value after c, h.apply session label value = .ok (after, c) →
    after.query = session.query

end Search

namespace Session

theorem query_turnOn (session : Session) (s : Switch) :
    (session.turnOn s).query = session.query := by
  rw [turnOn_eq]

theorem query_ignore (session : Session) (name : String) :
    (session.ignore name).query = session.query := by
  unfold ignore
  split <;> rfl

end Session

namespace Search

namespace Flags

theorem keepsQuery_plain (name : String) (aliases : List String) {change : Session → Session}
    (kept : ∀ session, (change session).query = session.query) :
    (plain name aliases change).KeepsQuery := by
  rintro session label value after c ⟨⟩
  exact kept session

theorem keepsQuery_order : order.KeepsQuery := by
  intro session label value after c applied
  simp only [order] at applied
  split at applied
  · cases applied
  · split at applied
    · cases applied
      rfl
    · cases applied

theorem keepsQuery_ignoreDefault : ignoreDefault.KeepsQuery := by
  intro session label value after c applied
  simp only [ignoreDefault] at applied
  split at applied
  · cases applied
    exact session.query_turnOn _
  next text =>
    cases applied
    have kept (names : List String) (session : Session) :
        (names.foldl (fun s name => s.ignore (Text.lower name)) session).query = session.query := by
      induction names generalizing session with
      | nil => rfl
      | cons name rest ih => exact (ih _).trans (session.query_ignore _)
    exact (kept _ _).trans (session.query_turnOn _)

theorem keepsQuery_selection (provider : SelectionProvider) : (selection provider).KeepsQuery := by
  intro session label value after c applied
  simp only [selection] at applied
  split at applied
  · cases applied
  · cases applied
    exact (Session.query_ignore _ _).trans (session.query_turnOn _)

end Flags

theorem Registry.keepsQuery_builtin {settings : Settings} {h : FlagHandler}
    (member : h ∈ builtinFlags settings) : h.KeepsQuery := by
  simp only [builtinFlags, List.mem_append, List.mem_cons, List.not_mem_nil, or_false] at member
  rcases member with (rfl | rfl | rfl | rfl | rfl) | defaults
  · exact Flags.keepsQuery_plain _ _ fun session => session.query_turnOn _
  · exact Flags.keepsQuery_plain _ _ fun session => session.query_turnOn _
  · exact Flags.keepsQuery_plain _ _ fun session => session.query_turnOn _
  · exact Flags.keepsQuery_plain _ _ fun session => session.query_turnOn _
  · exact Flags.keepsQuery_order
  · split at defaults
    · simp only [List.mem_cons, List.not_mem_nil, or_false] at defaults
      rcases defaults with rfl | rfl
      · exact Flags.keepsQuery_ignoreDefault
      · apply Flags.keepsQuery_plain
        intro session
        exact (Session.query_ignore _ _).trans (session.query_turnOn _)
    · cases defaults

namespace Progress

variable {now : Instant} {registry : Registry} {p q : Progress}

theorem query_step (kept : ∀ h ∈ registry.flags, h.KeepsQuery) {word : String}
    (taken : p.step now registry word = .ok q) : q.session.query = p.session.query := by
  rcases step_cases taken with ⟨-, rfl⟩ | ⟨_, _, h, _, _, -, found, applied, rfl⟩ |
    ⟨_, _, _, -, -, -, -, rfl⟩
  · rfl
  · exact kept h (Registry.flag?_some found).1 _ _ _ _ _ applied
  · rfl

/-- Words leave the query of the session as it was, also when one of them is refused. -/
theorem query_run (kept : ∀ h ∈ registry.flags, h.KeepsQuery) (p : Progress)
    (words : List String) : (p.run now registry words).1.session.query = p.session.query := by
  induction words generalizing p with
  | nil => rfl
  | cons word rest ih =>
    rw [run]
    split
    next r stepped => exact (ih r).trans (query_step kept stepped)
    next => rfl

end Progress

namespace Compiler

/-- Compiles and resolves, with look-ups that end in an order of their own. -/
def compileAs (compiler : Compiler) (order : Compiled → List Nat) (now : Instant)
    (session : Session) (words : List String) : Session × Except SearchError Query :=
  let (session, compiled) := compiler.prepare now session words
  match compiled.bind fun c => c.resolveAs (order c) with
  | .ok query => ({ session with query := query }, .ok query)
  | .error e => (session, .error e)

theorem compile_eq (compiler : Compiler) (now : Instant) (session : Session)
    (words : List String) : compiler.compile now session words =
      compiler.compileAs (fun c => List.range c.pending.length) now session words := rfl

variable {compiler : Compiler} {order : Compiled → List Nat} {now : Instant}
  {first last : Session} {words : List String} {e : SearchError}

theorem compileAs_ok_iff {query : Query} : compiler.compileAs order now first words =
      (last, .ok query) ↔
    ∃ session c, compiler.prepare now first words = (session, .ok c) ∧
      c.resolveAs (order c) = .ok query ∧ last = { session with query := query } := by
  unfold compileAs
  obtain ⟨session, compiled⟩ := compiler.prepare now first words
  constructor
  · intro searched
    cases compiled with
    | error e => cases searched
    | ok c =>
      simp only [Except.bind] at searched
      cases resolved : c.resolveAs (order c) with
      | error e =>
        rw [resolved] at searched
        cases searched
      | ok query =>
        rw [resolved] at searched
        cases searched
        exact ⟨session, c, rfl, resolved, rfl⟩
  · rintro ⟨_, c, ⟨⟩, resolved, rfl⟩
    simp only [Except.bind, resolved]

/-- A search that fails leaves the session as its flags did. -/
theorem compileAs_error (failed : compiler.compileAs order now first words = (last, .error e)) :
    last = (compiler.prepare now first words).1 := by
  unfold compileAs at failed
  split at failed
  next session compiled prepared =>
    split at failed
    next => cases failed
    next =>
      rw [prepared]
      exact (Prod.mk.inj failed).1.symm

theorem query_prepare (kept : ∀ h ∈ compiler.registry.flags, h.KeepsQuery) :
    (compiler.prepare now first words).1.query = first.query := by
  have same : ((compiler.start first).run now compiler.registry words).1.session.query =
      first.query := Progress.query_run kept (compiler.start first) words
  unfold prepare
  split
  next p e ran =>
    rw [ran] at same
    exact same
  next p ran =>
    rw [ran] at same
    exact same

theorem keepsQuery_withParameters (settings : Settings) (handlers : List ParameterHandler)
    (providers : List (Option SelectionProvider)) :
    ∀ h ∈ (withParameters settings handlers providers).registry.flags, h.KeepsQuery := by
  intro h member
  rw [withParameters, setSelection_run Registry.builtinFlags_not_selection] at member
  rcases mem_offering member with old | ⟨p, rfl⟩
  · exact Registry.keepsQuery_builtin old
  · exact Flags.keepsQuery_selection p

end Compiler

/-- Look-ups are joined exactly like this, in whatever order those that end do so, which may be the
order of the words. The search gets its conditions if and only if all of them find something, and
then in the order of the words behind the conditions that were there. Few look-ups fail with the
error of the first of them to fail, even if another never ends. Of many the first in the order of
the words that finds nothing decides: its error is seen, and if it never ends the search times out
although others fail. Where none fails and one never ends the search times out. A search that
succeeds leaves its query in the session; one that fails leaves the session as its flags did, and
the query of the session as it was. -/
theorem lookups_joined (compiled : Compiled) (finish : List Nat)
    (covers : Lookup.Covers finish compiled.pending) :
    (∃ order, Lookup.Covers order compiled.pending ∧
      compiled.resolve = compiled.resolveAs order) ∧
    (∀ query, compiled.resolveAs finish = .ok query ↔
      ∃ each, compiled.pending = List.map .found each ∧
        query = compiled.query.add each.flatten) ∧
    (compiled.pending.length ≤ Lookup.watched → (∃ e, .failed e ∈ compiled.pending) →
      ∃ e, Lookup.FailsFirst finish compiled.pending e ∧
        compiled.resolveAs finish = .error e) ∧
    (Lookup.watched < compiled.pending.length → ∀ (each : List (List Condition)) e rest,
      compiled.pending = List.map .found each ++ .failed e :: rest →
      compiled.resolveAs finish = .error e) ∧
    (Lookup.watched < compiled.pending.length → Lookup.Blocked compiled.pending →
      compiled.resolveAs finish = .error (.timeout compiled.timeout)) ∧
    ((∀ e, .failed e ∉ compiled.pending) → .never ∈ compiled.pending →
      compiled.resolveAs finish = .error (.timeout compiled.timeout)) ∧
    (∀ (compiler : Compiler) order now first words last query,
      compiler.compileAs order now first words = (last, .ok query) ↔
        ∃ session c, compiler.prepare now first words = (session, .ok c) ∧
          c.resolveAs (order c) = .ok query ∧ last = { session with query := query }) ∧
    (∀ (compiler : Compiler) order now first words last e,
      compiler.compileAs order now first words = (last, .error e) →
      last = (compiler.prepare now first words).1 ∧
        ((∀ h ∈ compiler.registry.flags, h.KeepsQuery) → last.query = first.query)) ∧
    ∀ settings handlers providers,
      ∀ h ∈ (Compiler.withParameters settings handlers providers).registry.flags, h.KeepsQuery := by
  refine ⟨⟨_, Lookup.covers_range _, compiled.resolve_eq⟩, fun _ => Compiled.resolveAs_ok_iff,
    ?_, ?_, ?_, ?_, ?_, ?_, Compiler.keepsQuery_withParameters⟩
  · rintro few ⟨e, failed⟩
    obtain ⟨e', first⟩ := Lookup.exists_failsFirst covers failed
    exact ⟨e', first, Compiled.resolveAs_error (Lookup.join_few few first)⟩
  · intro many each e rest parts
    apply Compiled.resolveAs_error
    rw [Lookup.join_many many, parts, Lookup.inTurn_failed]
  · intro many blocked
    apply Compiled.resolveAs_error
    rw [Lookup.join_many many, Lookup.inTurn_blocked blocked]
  · intro sound endless
    exact Compiled.resolveAs_error (Lookup.join_endless sound endless)
  · intro compiler order now first words last query
    exact Compiler.compileAs_ok_iff
  · intro compiler order now first words last e failed
    have left := Compiler.compileAs_error failed
    exact ⟨left, fun kept => left ▸ Compiler.query_prepare kept⟩

section Sample

/-- A parameter that finds nothing by itself and waits for this look-up of its value. -/
def waiting (name label : String) (lookup : String → Lookup) : ParameterHandler :=
  { Parameters.message with
    name := name
    aliases := [label]
    build := fun _ _ argument => .ok ⟨[], some (lookup argument.value)⟩ }

/-- One parameter waits for ever, and one cannot find its value. -/
def unlucky : Compiler :=
  .withParameters .standard
    [waiting "hanging" "n" fun _ => .never,
      waiting "broken" "f" fun value => .failed (.unresolved ("cannot resolve " ++ value))] []

/-- The first failure comes from the last word, beside a look-up that never ends. -/
theorem late_failure_first :
    Lookup.Covers [2, 1] [.never, .failed (.unknownPlayer "a"), .failed (.unknownPlayer "b")] ∧
    (⟨⟨[], 5⟩, [.never, .failed (.unknownPlayer "a"), .failed (.unknownPlayer "b")], [], 10⟩ :
      Compiled).resolveAs [2, 1] = .error (.unknownPlayer "b") ∧
    ∃ last e, unlucky.compile clock (.start .console .utc) ["n:1", "f:1"] = (last, .error e) ∧
      last.query = (Session.start .console .utc).query := by
  have covers : Lookup.Covers [2, 1]
      [.never, .failed (.unknownPlayer "a"), .failed (.unknownPlayer "b")] := by
    rintro (_ | _ | _ | _) lookup ⟨⟩ ends
    · exact absurd rfl ends
    · decide
    · decide
  obtain ⟨-, -, few, -, -, -, -, failing, keeping⟩ := lookups_joined
    ⟨⟨[], 5⟩, [.never, .failed (.unknownPlayer "a"), .failed (.unknownPlayer "b")], [], 10⟩ [2, 1]
    covers
  obtain ⟨e, ⟨before, position, after, order, failed, others⟩, resolved⟩ :=
    few (by decide) ⟨.unknownPlayer "a", by simp⟩
  have refused : (unlucky.compile clock (.start .console .utc) ["n:1", "f:1"]).2.isOk = false := by
    decide +kernel
  refine ⟨covers, ?_, ?_⟩
  · cases before with
    | nil =>
      cases order
      cases failed
      exact resolved
    | cons first rest =>
      obtain ⟨rfl, -⟩ := List.cons.inj order
      exact absurd rfl (others 2 List.mem_cons_self (.unknownPlayer "b"))
  · cases searched : unlucky.compile clock (.start .console .utc) ["n:1", "f:1"] with
    | mk last result =>
      rw [searched] at refused
      cases result with
      | ok query => cases refused
      | error e =>
        rw [Compiler.compile_eq] at searched
        exact ⟨last, e, rfl, (failing _ _ _ _ _ last e searched).2 (keeping _ _ [])⟩

/-- Thirty failures are not seen behind a look-up that never ends, in whatever order they come. -/
theorem endless_hides_failures : ∃ session compiled,
    unlucky.prepare clock (.start .console .utc) ("n:1" :: List.replicate 30 "f:1") =
      (session, .ok compiled) ∧
    .failed (.unresolved "cannot resolve 1") ∈ compiled.pending ∧
    ∀ finish, compiled.resolveAs finish = .error (.timeout 10000) := by
  have accepted : (unlucky.prepare clock (.start .console .utc)
      ("n:1" :: List.replicate 30 "f:1")).2.isOk = true := by decide +kernel
  obtain ⟨compiled, prepared⟩ := Compiler.prepare_isOk accepted
  have waited : (unlucky.prepare clock (.start .console .utc)
      ("n:1" :: List.replicate 30 "f:1")).2.toOption.map (fun c =>
        (c.pending.length, c.pending.findSome? Lookup.failure?,
          (Lookup.inTurn c.timeout c.pending).map fun _ => ())) =
      some (31, some (.unresolved "cannot resolve 1"), .error (.timeout 10000)) := by
    decide +kernel
  rw [prepared] at waited
  obtain ⟨many, failing⟩ := Prod.mk.inj (Option.some_inj.mp waited)
  obtain ⟨failed, ended⟩ := Prod.mk.inj failing
  refine ⟨_, compiled, prepared, ?_, ?_⟩
  · obtain ⟨lookup, member, failure⟩ := List.exists_of_findSome?_eq_some failed
    rwa [Lookup.failure?_eq_some.mp failure] at member
  · intro finish
    apply Compiled.resolveAs_error
    rw [Lookup.join_many (by rw [many]; decide)]
    exact error_of_map ended

end Sample

end Search
end AuditLog
