import AuditLog.Proofs.SearchBounds

/-! What a search holds once its words have been taken. The arguments given so far are kept in a list
with one entry for each alias, in any letter case: it is spelled as at first and has the value that
came last. The list is followed word by word and then read off the words at once; conditions and
look-ups are those that the words add, in their order. -/
namespace AuditLog.Search

/-- The argument that a word gives, if it is one. -/
def argument? (word : String) : Option Argument :=
  match Word.parse? word with
  | some (.parameter argument) => some argument
  | _ => none

theorem argument?_eq_some {word : String} {argument : Argument} :
    argument? word = some argument ↔ Word.parse? word = some (.parameter argument) := by
  unfold argument?
  split
  next parsed => rw [parsed, Option.some_inj, Option.some_inj, Word.parameter.injEq]
  next other =>
    constructor
    · intro never
      cases never
    · intro parsed
      exact absurd parsed (other argument)

def arguments (words : List String) : List Argument := words.filterMap argument?

theorem mem_arguments {words : List String} {argument : Argument} :
    argument ∈ arguments words ↔ ∃ word ∈ words, argument? word = some argument :=
  List.mem_filterMap

/-- The arguments under an alias, in any letter case. -/
def under (label : String) (given : List Argument) : List Argument :=
  given.filter fun argument => Text.sameLetters argument.label label

theorem mem_under {label : String} {given : List Argument} {argument : Argument} :
    argument ∈ under label given ↔
      argument ∈ given ∧ Text.lower argument.label = Text.lower label := by
  rw [under, List.mem_filter, sameLetters_iff]

theorem under_append (label : String) (before after : List Argument) :
    under label (before ++ after) = under label before ++ under label after :=
  List.filter_append ..

theorem under_cons {label : String} {argument : Argument}
    (same : Text.lower argument.label = Text.lower label) (rest : List Argument) :
    under label (argument :: rest) = argument :: under label rest :=
  List.filter_cons_of_pos (sameLetters_iff.mpr same)

namespace Progress

/-- Arguments given one after another. -/
def gather (given more : List Argument) : List Argument :=
  more.foldl (fun given argument => replace argument given) given

/-- The entry that an alias has. -/
def held? (label : String) (given : List Argument) : Option Argument :=
  given.find? fun argument => Text.sameLetters argument.label label

theorem held?_replace (argument : Argument) (given : List Argument) (label : String) :
    held? label (replace argument given) =
      if Text.sameLetters argument.label label then
        some ⟨((held? label given).map Argument.label).getD argument.label, argument.value⟩
      else held? label given := by
  induction given with
  | nil =>
    rw [replace, held?, List.find?_singleton]
    rfl
  | cons other rest ih =>
    have letters (same : Text.sameLetters other.label argument.label = true) :
        Text.sameLetters other.label label = Text.sameLetters argument.label label := by
      rw [Text.sameLetters, sameLetters_iff.mp same, Text.sameLetters]
    unfold replace
    split
    next same =>
      cases here : Text.sameLetters argument.label label <;>
        simp [held?, letters same, here]
    next differ =>
      cases here : Text.sameLetters other.label label with
      | false =>
        simp only [held?, List.find?_cons, here]
        exact ih
      | true =>
        have apart : Text.sameLetters argument.label label = false := by
          rw [← Bool.not_eq_true, sameLetters_iff]
          intro also
          exact differ (sameLetters_iff.mpr ((sameLetters_iff.mp here).trans also.symm))
        simp [held?, here, apart]

/-- The aliases of the entries: a new one comes last. -/
theorem aliases_replace (argument : Argument) (given : List Argument) :
    (replace argument given).map (Text.lower ·.label) =
      if Text.lower argument.label ∈ given.map (Text.lower ·.label) then
        given.map (Text.lower ·.label)
      else given.map (Text.lower ·.label) ++ [Text.lower argument.label] := by
  induction given with
  | nil => rfl
  | cons other rest ih =>
    unfold replace
    split
    next same => simp [sameLetters_iff.mp same]
    next differ =>
      have apart : Text.lower argument.label ≠ Text.lower other.label := by
        intro same
        exact differ (sameLetters_iff.mpr same.symm)
      simp only [List.map_cons, ih, List.mem_cons, apart, false_or]
      split <;> rfl

def Distinct (given : List Argument) : Prop := (given.map (Text.lower ·.label)).Nodup

theorem distinct_replace {given : List Argument} (distinct : Distinct given)
    (argument : Argument) : Distinct (replace argument given) := by
  unfold Distinct
  rw [aliases_replace]
  split
  next => exact distinct
  next fresh => exact List.nodup_append.mpr ⟨distinct, List.nodup_singleton _, by
    rintro label known _ new rfl
    exact fresh (List.mem_singleton.mp new ▸ known)⟩

theorem held?_of_mem {given : List Argument} (distinct : Distinct given) {argument : Argument}
    (member : argument ∈ given) : held? argument.label given = some argument := by
  induction given with
  | nil => cases member
  | cons other rest ih =>
    obtain ⟨fresh, distinct⟩ := List.nodup_cons.mp distinct
    rcases List.mem_cons.mp member with rfl | later
    · exact List.find?_cons_of_pos (sameLetters_iff.mpr rfl)
    · have apart : Text.sameLetters other.label argument.label = false := by
        rw [← Bool.not_eq_true, sameLetters_iff]
        intro same
        exact fresh (List.mem_map.mpr ⟨argument, later, same.symm⟩)
      simp only [held?, List.find?_cons, apart]
      exact ih distinct later

theorem gather_append (given before after : List Argument) :
    gather given (before ++ after) = gather (gather given before) after := List.foldl_append

theorem distinct_gather (more : List Argument) : Distinct (gather [] more) := by
  induction more using List.reverseRecOn with
  | nil => exact List.nodup_nil
  | append_singleton before argument ih =>
    rw [gather_append]
    exact distinct_replace ih argument

/-- An alias has the spelling that came first and the value that came last. -/
theorem held?_gather (label : String) (more : List Argument) :
    held? label (gather [] more) = (under label more).head?.bind fun first =>
      (under label more).getLast?.map fun last => ⟨first.label, last.value⟩ := by
  induction more using List.reverseRecOn with
  | nil => rfl
  | append_singleton before argument ih =>
    have replaced : gather [] (before ++ [argument]) = replace argument (gather [] before) :=
      gather_append _ _ _
    rw [replaced, held?_replace, ih, under_append]
    cases same : Text.sameLetters argument.label label with
    | false =>
      have none : under label [argument] = [] := by simp [under, same]
      rw [none, List.append_nil]
      rfl
    | true =>
      have alone : under label [argument] = [argument] := by simp [under, same]
      rw [alone, List.getLast?_concat]
      cases known : under label before with
      | nil => rfl
      | cons first rest => simp [List.getLast?_cons]

theorem mem_gather {more : List Argument} {argument : Argument}
    (member : argument ∈ gather [] more) : ∃ first last,
      (under argument.label more).head? = some first ∧ first.label = argument.label ∧
      (under argument.label more).getLast? = some last ∧ last.value = argument.value := by
  have found := held?_of_mem (distinct_gather more) member
  rw [held?_gather, Option.bind_eq_some_iff] at found
  obtain ⟨first, head, found⟩ := found
  obtain ⟨last, final, rfl⟩ := Option.map_eq_some_iff.mp found
  exact ⟨first, last, head, rfl, final, rfl⟩

/-- The argument that came last under its alias leaves its value, under the first spelling. -/
theorem gather_last (before : List Argument) {after : List Argument} {argument : Argument}
    (last : ∀ other ∈ after, Text.sameLetters other.label argument.label = false) :
    ∃ label, Text.lower label = Text.lower argument.label ∧
      ⟨label, argument.value⟩ ∈ gather [] (before ++ argument :: after) := by
  have none : under argument.label after = [] := by
    apply List.filter_eq_nil_iff.mpr
    intro other member
    rw [last other member]
    exact Bool.false_ne_true
  have own : under argument.label (before ++ argument :: after) =
      under argument.label before ++ [argument] := by
    rw [under_append, under_cons rfl, none]
  have found := held?_gather argument.label (before ++ argument :: after)
  rw [own, List.getLast?_concat] at found
  obtain ⟨first, head⟩ : ∃ first, (under argument.label before ++ [argument]).head? = some first := by
    cases under argument.label before with
    | nil => exact ⟨argument, rfl⟩
    | cons first rest => exact ⟨first, rfl⟩
  rw [head] at found
  refine ⟨first.label, ?_, List.mem_of_find?_eq_some found⟩
  have within := List.mem_of_mem_head? head
  rw [← own] at within
  exact (mem_under.mp within).2

/-- A parameter is addressed by what is left exactly if it is by what was given. -/
theorem any_gather (aliases : List String) (more : List Argument) :
    (gather [] more).any (answersTo aliases ·.label) = more.any (answersTo aliases ·.label) := by
  rw [Bool.eq_iff_iff, List.any_eq_true, List.any_eq_true]
  constructor
  · rintro ⟨argument, member, answers⟩
    obtain ⟨first, -, head, spelled, -⟩ := mem_gather member
    exact ⟨first, (mem_under.mp (List.mem_of_mem_head? head)).1, spelled ▸ answers⟩
  · rintro ⟨argument, member, answers⟩
    have nonempty : (under argument.label more) ≠ [] :=
      List.ne_nil_of_mem (mem_under.mpr ⟨member, rfl⟩)
    have found := held?_gather argument.label more
    rw [List.head?_eq_some_head nonempty, List.getLast?_eq_some_getLast nonempty] at found
    refine ⟨_, List.mem_of_find?_eq_some found, ?_⟩
    rw [← answers]
    exact answersTo_congr (mem_under.mp (List.head_mem nonempty)).2 aliases

section Run

variable {now : Instant} {registry : Registry} {p q : Progress}

theorem given_step {word : String} (taken : p.step now registry word = .ok q) :
    q.given = gather p.given (argument? word).toList := by
  rcases step_cases taken with ⟨parsed, rfl⟩ | ⟨label, value, h, session, c, parsed, -, -, rfl⟩ |
    ⟨argument, h, c, parsed, -, -, -, rfl⟩ <;>
  · rw [argument?, parsed]
    rfl

theorem given_run {words : List String} (taken : p.run now registry words = (q, none)) :
    q.given = gather p.given (arguments words) := by
  induction words generalizing p with
  | nil =>
    cases taken
    rfl
  | cons word rest ih =>
    unfold run at taken
    split at taken
    next r stepped =>
      have split : arguments (word :: rest) = (argument? word).toList ++ arguments rest := by
        cases found : argument? word <;> simp [arguments, found]
      rw [split, gather_append, ← given_step stepped, ← ih taken]
    next => cases taken

/-- What is taken at once is taken in two parts. -/
theorem run_append {before after : List String}
    (taken : p.run now registry (before ++ after) = (q, none)) :
    ∃ r, p.run now registry before = (r, none) ∧ r.run now registry after = (q, none) := by
  induction before generalizing p with
  | nil => exact ⟨p, rfl, taken⟩
  | cons word rest ih =>
    rw [List.cons_append, run] at taken
    rw [run]
    split at taken
    next r stepped => exact ih taken
    next => cases taken

/-- A search is refused at one of its words, when those before it have been taken. -/
theorem run_stopped {words : List String} {e : SearchError}
    (refused : p.run now registry words = (q, some e)) :
    ∃ before word after, words = before ++ word :: after ∧
      p.run now registry before = (q, none) ∧ q.step now registry word = .error e := by
  induction words generalizing p with
  | nil => cases refused
  | cons word rest ih =>
    unfold run at refused
    split at refused
    next r stepped =>
      obtain ⟨before, other, after, rfl, ran, stopped⟩ := ih refused
      refine ⟨word :: before, other, after, rfl, ?_, stopped⟩
      simp only [run, stepped, ran]
    next stopped =>
      cases refused
      exact ⟨[], word, rest, rfl, rfl, stopped⟩

end Run

end Progress

/-- What one word does: the session after it, and what it adds to the query. -/
inductive Adds (now : Instant) (registry : Registry) (session : Session) (word : String) :
    Session → Contribution → Prop where
  | blank : Word.parse? word = none → Adds now registry session word session .none
  | flag {label : String} {value : Option String} {h : FlagHandler} {after : Session}
      {c : Contribution} : Word.parse? word = some (.flag label value) →
      registry.flag? label = some h → h.apply session label value = .ok (after, c) →
      Adds now registry session word after c
  | parameter {argument : Argument} {h : ParameterHandler} {c : Contribution} :
      argument? word = some argument → registry.parameter? argument.label = some h →
      h.build now session argument = .ok c → Adds now registry session word session c

/-- What words do one after another. -/
inductive AddEach (now : Instant) (registry : Registry) :
    Session → List String → Session → List Contribution → Prop where
  | nil (session : Session) : AddEach now registry session [] session []
  | cons {first next last : Session} {word : String} {words : List String} {c : Contribution}
      {cs : List Contribution} : Adds now registry first word next c →
      AddEach now registry next words last cs →
      AddEach now registry first (word :: words) last (c :: cs)

namespace Progress

variable {now : Instant} {registry : Registry} {p q : Progress}

theorem adds_of_step {word : String} (taken : p.step now registry word = .ok q) :
    ∃ c, Adds now registry p.session word q.session c ∧
      q.query = p.query.add c.conditions ∧ q.pending = p.pending ++ c.lookup.toList := by
  rcases step_cases taken with ⟨blank, rfl⟩ |
    ⟨label, value, h, session, c, parsed, found, applied, rfl⟩ |
    ⟨argument, h, c, parsed, found, -, built, rfl⟩
  · exact ⟨.none, .blank blank, by simp [Query.add, Contribution.none], by simp [Contribution.none]⟩
  · exact ⟨c, .flag parsed found applied, rfl, rfl⟩
  · exact ⟨c, .parameter (argument?_eq_some.mpr parsed) found built, rfl, rfl⟩

/-- Conditions and look-ups stand in the order of the words that add them. -/
theorem addEach_of_run {words : List String} (taken : p.run now registry words = (q, none)) :
    ∃ cs, AddEach now registry p.session words q.session cs ∧
      q.query = p.query.add (cs.flatMap Contribution.conditions) ∧
      q.pending = p.pending ++ cs.filterMap Contribution.lookup := by
  induction words generalizing p with
  | nil =>
    cases taken
    exact ⟨[], .nil _, by simp [Query.add], by simp⟩
  | cons word rest ih =>
    rw [run] at taken
    split at taken
    next r stepped =>
      obtain ⟨c, adds, query, pending⟩ := adds_of_step stepped
      obtain ⟨cs, each, query', pending'⟩ := ih taken
      refine ⟨c :: cs, .cons adds each, ?_, ?_⟩
      · rw [query', query, List.flatMap_cons]
        simp [Query.add]
      · rw [pending', pending, List.append_assoc]
        cases found : c.lookup <;> simp [found]
    next => cases taken

end Progress

end AuditLog.Search
