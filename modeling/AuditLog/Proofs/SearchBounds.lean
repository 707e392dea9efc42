import AuditLog.Proofs.ArchiveRun
import AuditLog.Proofs.DefaultCalls

/-! No search escapes its bounds. What the words of a search leave behind is followed step by
step; then the parameters that were not addressed stand in. A search is bounded in time unless a
flag withdraws that bound, and in place unless one withdraws it or the requester is nowhere. -/
namespace AuditLog.Search

namespace Progress

/-- What taking a word can do. -/
theorem step_cases {now : Instant} {registry : Registry} {p q : Progress} {word : String}
    (taken : p.step now registry word = .ok q) :
    (Word.parse? word = none ∧ q = p) ∨
    (∃ label value h session c, Word.parse? word = some (.flag label value) ∧
      registry.flag? label = some h ∧ h.apply p.session label value = .ok (session, c) ∧
      q = p.add session c) ∨
    ∃ argument h c, Word.parse? word = some (.parameter argument) ∧
      registry.parameter? argument.label = some h ∧
      p.given.find? (h.conflicts argument) = none ∧
      h.build now p.session argument = .ok c ∧
      q = { p.add p.session c with given := replace argument p.given } := by
  unfold step at taken
  split at taken
  next blank =>
    cases taken
    exact .inl ⟨blank, rfl⟩
  next label value parsed =>
    refine .inr (.inl ?_)
    unfold applyFlag at taken
    split at taken
    next => cases taken
    next h found =>
      split at taken
      next => cases taken
      next =>
        split at taken
        next => cases taken
        next =>
          obtain ⟨⟨session, c⟩, applied, rfl⟩ := ok_of_map taken
          exact ⟨label, value, h, session, c, parsed, found, applied, rfl⟩
  next argument parsed =>
    refine .inr (.inr ?_)
    unfold applyParameter at taken
    split at taken
    next => cases taken
    next h found =>
      split at taken
      next => cases taken
      next =>
        split at taken
        next => cases taken
        next =>
          split at taken
          next => cases taken
          next free =>
            obtain ⟨c, built, rfl⟩ := ok_of_map taken
            exact ⟨argument, h, c, parsed, found, free, built, rfl⟩
  next => cases taken

/-- The labels stay as they are, or a new one comes last. -/
theorem labels_replace (argument : Argument) (given : List Argument) :
    ((replace argument given).map Argument.label = given.map Argument.label ∧
      ∃ label ∈ given.map Argument.label, Text.lower label = Text.lower argument.label) ∨
    (replace argument given).map Argument.label = given.map Argument.label ++ [argument.label] := by
  induction given with
  | nil => exact .inr rfl
  | cons other rest ih =>
    unfold replace
    split
    next same =>
      exact .inl ⟨rfl, other.label, List.mem_cons_self, beq_iff_eq.mp same⟩
    next =>
      rcases ih with ⟨unchanged, label, known, same⟩ | added
      · refine .inl ⟨?_, label, List.mem_cons_of_mem _ known, same⟩
        rw [List.map_cons, List.map_cons, unchanged]
      · refine .inr ?_
        rw [List.map_cons, List.map_cons, added, List.cons_append]

theorem mem_labels_replace {argument : Argument} {given : List Argument} {label : String}
    (member : label ∈ (replace argument given).map Argument.label) :
    label ∈ given.map Argument.label ∨ label = argument.label := by
  rcases labels_replace argument given with ⟨unchanged, -⟩ | added
  · exact .inl (unchanged ▸ member)
  · rw [added] at member
    exact (List.mem_append.mp member).imp id List.mem_singleton.mp

theorem labels_subset_replace (argument : Argument) (given : List Argument) :
    given.map Argument.label ⊆ (replace argument given).map Argument.label := by
  rcases labels_replace argument given with ⟨unchanged, -⟩ | added
  · rw [unchanged]
    exact List.Subset.refl _
  · rw [added]
    exact List.subset_append_left _ _

theorem label_replace (argument : Argument) (given : List Argument) :
    ∃ label ∈ (replace argument given).map Argument.label,
      Text.lower label = Text.lower argument.label := by
  rcases labels_replace argument given with ⟨unchanged, known⟩ | added
  · rw [unchanged]
    exact known
  · rw [added]
    exact ⟨argument.label, by simp, rfl⟩

end Progress

open Parameters

/-- A radius is not taken beside a world, nor a world beside a radius. -/
theorem apart_of_free {settings : Settings} {players : Players} {h : ParameterHandler}
    {argument : Argument} (member : h ∈ Registry.builtinParameters settings players)
    (handles : h.handles argument.label = true) {given : List Argument}
    (free : given.find? (h.conflicts argument) = none) :
    (answersTo radiusAliases argument.label = true →
      answersTo worldAliases argument.label = false ∧
      ∀ other ∈ given.map Argument.label, answersTo worldAliases other = false) ∧
    (answersTo worldAliases argument.label = true →
      ∀ other ∈ given.map Argument.label, answersTo radiusAliases other = false) := by
  have alone := List.find?_eq_none.mp free
  have only_world (far : answersTo worldAliases argument.label = true) : h = world :=
    Registry.handler_unique member (Registry.world_mem settings players) handles far
  constructor
  · intro near
    have same := Registry.handler_unique member (Registry.radius_mem settings players) handles near
    constructor
    · rw [← Bool.not_eq_true]
      intro far
      have names : "radius" = "world" :=
        congrArg ParameterHandler.name (same.symm.trans (only_world far))
      exact absurd names (by decide)
    · intro other known
      obtain ⟨b, within, rfl⟩ := List.mem_map.mp known
      have none := alone b within
      rw [same] at none
      exact (Bool.not_eq_true _).mp none
  · intro far other known
    obtain ⟨b, within, rfl⟩ := List.mem_map.mp known
    have none := alone b within
    rw [only_world far] at none
    exact (Bool.not_eq_true _).mp none

/-- The query bounds the time of creation from below. -/
def Dated (conditions : List Condition) : Prop :=
  ∃ t, Condition.since Field.created t Field.created_ne ∈ conditions

/-- The query names a world. -/
def Placed (conditions : List Condition) : Prop :=
  ∃ l, Condition.leaf l ∈ conditions ∧ l.field = Field.world

theorem Dated.mono {conditions others : List Condition} (dated : Dated conditions)
    (kept : conditions ⊆ others) : Dated others := by
  obtain ⟨t, member⟩ := dated
  exact ⟨t, kept member⟩

theorem Placed.mono {conditions others : List Condition} (placed : Placed conditions)
    (kept : conditions ⊆ others) : Placed others := by
  obtain ⟨l, member, world⟩ := placed
  exact ⟨l, kept member, world⟩

theorem placed_cube (place : Location) (n : Nat) : Placed (cube place n) :=
  ⟨_, List.mem_cons_self, rfl⟩

namespace Progress

/-- What is known once the words have been taken. It speaks of labels, since an argument that is
given again changes its value only. -/
structure Sound (requester : Requester) (words : List String) (p : Progress) : Prop where
  requester : p.session.requester = requester
  withdrawn : ∀ name, p.session.ignores name = true → ∃ word ∈ words, ∃ label value,
    Word.parse? word = some (.flag label value) ∧ Withdraws name label value
  leaves : ∀ c ∈ p.query.conditions, c.IsLeaf
  dated : ∀ label ∈ p.given.map Argument.label, answersTo timeAliases label = true →
    Dated p.query.conditions
  placed : ∀ label ∈ p.given.map Argument.label, answersTo radiusAliases label = true →
    Placed p.query.conditions
  kept : ∀ word ∈ words, ∀ argument, Word.parse? word = some (.parameter argument) →
    ∃ label ∈ p.given.map Argument.label, Text.lower label = Text.lower argument.label
  apart : ∀ label ∈ p.given.map Argument.label, ∀ other ∈ p.given.map Argument.label,
    answersTo radiusAliases label = true → answersTo worldAliases other = false

namespace Sound

variable {requester : Requester} {words : List String} {p : Progress} {word : String}

theorem mem_append_word {words : List String} {word : String} {P : String → Prop}
    (found : ∃ w ∈ words, P w) : ∃ w ∈ words ++ [word], P w := by
  obtain ⟨w, member, holds⟩ := found
  exact ⟨w, List.mem_append_left _ member, holds⟩

theorem blank (sound : Sound requester words p)
    (parsed : ∀ argument, Word.parse? word ≠ some (.parameter argument)) :
    Sound requester (words ++ [word]) p := by
  refine ⟨sound.requester, ?_, sound.leaves, sound.dated, sound.placed, ?_, sound.apart⟩
  · intro name ignored
    exact mem_append_word (sound.withdrawn name ignored)
  · intro w member argument asks
    rcases List.mem_append.mp member with old | new
    · exact sound.kept w old argument asks
    · cases List.mem_singleton.mp new
      exact absurd asks (parsed argument)

theorem flag (sound : Sound requester words p) {label : String} {value : Option String}
    (parsed : Word.parse? word = some (.flag label value)) {h : FlagHandler} (mild : h.Mild)
    (handles : h.handles label = true) {session : Session} {c : Contribution}
    (applied : h.apply p.session label value = .ok (session, c)) :
    Sound requester (words ++ [word]) (p.add session c) := by
  obtain ⟨same, leaves, ignored⟩ := mild _ _ _ _ _ handles applied
  have after : Sound requester (words ++ [word]) p := by
    apply sound.blank
    intro argument asks
    rw [parsed] at asks
    cases asks
  refine ⟨same.trans sound.requester, ?_, ?_, ?_, ?_, after.kept, after.apart⟩
  · intro name later
    rcases ignored name later with before | withdraws
    · exact after.withdrawn name before
    · exact ⟨word, by simp, label, value, parsed, withdraws⟩
  · intro condition member
    exact (List.mem_append.mp member).elim (sound.leaves condition) (leaves condition)
  · intro label known asks
    exact (sound.dated label known asks).mono (List.subset_append_left _ _)
  · intro label known asks
    exact (sound.placed label known asks).mono (List.subset_append_left _ _)

theorem parameter {settings : Settings} {players : Players} {now : Instant}
    (sound : Sound requester words p) {argument : Argument}
    (parsed : Word.parse? word = some (.parameter argument)) {h : ParameterHandler}
    (member : h ∈ Registry.builtinParameters settings players)
    (handles : h.handles argument.label = true)
    (free : p.given.find? (h.conflicts argument) = none) {c : Contribution}
    (built : h.build now p.session argument = .ok c) :
    Sound requester (words ++ [word])
      { p.add p.session c with given := replace argument p.given } := by
  obtain ⟨near, far⟩ := apart_of_free member handles free
  -- a label was there before, or it is the argument's own, and then it determines the handler
  refine ⟨sound.requester, ?_, ?_, ?_, ?_, ?_, ?_⟩
  · intro name ignored
    exact mem_append_word (sound.withdrawn name ignored)
  · intro condition within
    exact (List.mem_append.mp within).elim (sound.leaves condition)
      ((Registry.flat_builtin member).build _ _ _ _ built condition)
  · intro label known asks
    rcases mem_labels_replace known with old | rfl
    · exact (sound.dated label old asks).mono (List.subset_append_left _ _)
    · rw [Registry.handler_unique member (Registry.time_mem settings players) handles asks] at built
      obtain ⟨t, since⟩ := time_build built
      exact ⟨t, List.mem_append_right _ (by rw [since]; exact List.mem_singleton_self _)⟩
  · intro label known asks
    rcases mem_labels_replace known with old | rfl
    · exact (sound.placed label old asks).mono (List.subset_append_left _ _)
    · rw [Registry.handler_unique member (Registry.radius_mem settings players) handles asks] at built
      obtain ⟨place, n, cube⟩ := radius_build built
      exact (placed_cube place n).mono (cube ▸ List.subset_append_right _ _)
  · intro w within asked asks
    rcases List.mem_append.mp within with old | new
    · obtain ⟨label, known, same⟩ := sound.kept w old asked asks
      exact ⟨label, labels_subset_replace argument p.given known, same⟩
    · rw [List.mem_singleton.mp new, parsed] at asks
      cases asks
      exact label_replace argument p.given
  · intro label known other known' asks
    rcases mem_labels_replace known with old | rfl <;>
      rcases mem_labels_replace known' with old' | rfl
    · exact sound.apart label old other old' asks
    · rw [← Bool.not_eq_true]
      intro asks'
      rw [far asks' label old] at asks
      cases asks
    · exact (near asks).2 other old'
    · exact (near asks).1

theorem step {settings : Settings} {players : Players} {compiler : Compiler} {now : Instant}
    (standard : compiler.Standard settings players) (sound : Sound requester words p)
    {q : Progress} (taken : p.step now compiler.registry word = .ok q) :
    Sound requester (words ++ [word]) q := by
  rcases step_cases taken with ⟨parsed, rfl⟩ |
    ⟨label, value, h, session, c, parsed, found, applied, rfl⟩ |
    ⟨argument, h, c, parsed, found, free, built, rfl⟩
  · apply sound.blank
    intro argument asks
    rw [parsed] at asks
    cases asks
  · obtain ⟨member, handles⟩ := Registry.flag?_some found
    exact sound.flag parsed (standard.flags h member) handles applied
  · obtain ⟨member, handles⟩ := Registry.parameter?_some found
    rw [standard.parameters] at member
    exact sound.parameter parsed member handles free built

theorem run {settings : Settings} {players : Players} {compiler : Compiler} {now : Instant}
    (standard : compiler.Standard settings players) (sound : Sound requester words p)
    {more : List String} {q : Progress}
    (taken : p.run now compiler.registry more = (q, none)) :
    Sound requester (words ++ more) q := by
  induction more generalizing words p with
  | nil =>
    cases taken
    rw [List.append_nil]
    exact sound
  | cons word rest ih =>
    unfold Progress.run at taken
    split at taken
    next r stepped =>
      have later := ih (sound.step standard stepped) taken
      rw [List.append_assoc] at later
      exact later
    next => cases taken

theorem start (compiler : Compiler) (requester : Requester) (zone : Zone) :
    Sound requester [] (compiler.start (.start requester zone)) := by
  refine ⟨rfl, ?_, ?_, ?_, ?_, ?_, ?_⟩
  · intro name ignored
    cases ignored
  all_goals
    intro _ member
    cases member

end Sound

end Progress

namespace Compiler

/-- Where there are defaults, a parameter that is not settled is called, with what is part of the
query in the end. -/
theorem callsAfter_unsettled {compiler : Compiler} {now : Instant} {p : Progress} {made : List Call}
    (asked : compiler.callsAfter now p = .ok made)
    (defaults : compiler.settings.defaultsEnabled = true) {h : ParameterHandler}
    (member : h ∈ compiler.registry.parameters)
    (unsettled : isSettled p.session p.given h = false) :
    ∃ call ∈ made, h.standIn now p.session call.shown = .ok call.answer ∧
      call.shown.conditions ⊆ p.query.conditions ++ made.flatMap Call.conditions := by
  obtain ⟨order, each⟩ := callsAfter_spec asked
  have listed : h ∈ made.map Call.handler := by
    rw [order, if_pos defaults]
    exact List.mem_filter.mpr ⟨member, by simp [unsettled]⟩
  obtain ⟨call, within, rfl⟩ := List.mem_map.mp listed
  obtain ⟨before, after, rfl⟩ := List.append_of_mem within
  obtain ⟨shown, answered⟩ := each before call after rfl
  refine ⟨call, within, answered, ?_⟩
  rw [shown, List.flatMap_append, ← List.append_assoc]
  exact List.subset_append_left _ _

/-- What a call adds stays. -/
theorem conditions_subset {made : List Call} {call : Call} (member : call ∈ made)
    (conditions : List Condition) :
    call.conditions ⊆ conditions ++ made.flatMap Call.conditions := by
  intro c given
  exact List.mem_append_right _ (List.mem_flatMap_of_mem member given)

theorem callsAfter_leaves {compiler : Compiler} {now : Instant} {p : Progress} {made : List Call}
    (asked : compiler.callsAfter now p = .ok made)
    (flat : ∀ h ∈ compiler.registry.parameters, h.Flat) {call : Call} (member : call ∈ made) :
    ∀ c ∈ call.conditions, c.IsLeaf := by
  obtain ⟨order, each⟩ := callsAfter_spec asked
  have listed : call.handler ∈ made.map Call.handler := List.mem_map_of_mem member
  rw [order] at listed
  split at listed
  next =>
    obtain ⟨before, after, rfl⟩ := List.append_of_mem member
    obtain ⟨-, answered⟩ := each before call after rfl
    intro c within
    unfold Call.conditions at within
    cases given : call.answer with
    | none =>
      rw [given] at within
      cases within
    | some pair =>
      rw [given] at within answered
      exact (flat _ (List.mem_filter.mp listed).1).standIn _ _ _ _ _ answered c within
  next => cases listed

theorem isSettled_cases {session : Session} {given : List Argument} {h : ParameterHandler}
    (settled : isSettled session given h = true) :
    (∃ name ∈ h.name :: h.aliases, session.ignores name = true) ∨
      ∃ label ∈ given.map Argument.label, h.handles label = true := by
  simp only [isSettled, Bool.or_eq_true, List.any_eq_true] at settled
  rcases settled with (named | ⟨name, own, ignored⟩) | ⟨argument, known, handles⟩
  · exact .inl ⟨h.name, List.mem_cons_self, named⟩
  · exact .inl ⟨name, List.mem_cons_of_mem _ own, ignored⟩
  · exact .inr ⟨argument.label, List.mem_map_of_mem known, handles⟩

end Compiler

/-- The word withdraws the default of one of these names, or all defaults. -/
def ignoresDefault (names : List String) (word : String) : Bool :=
  match Word.parse? word with
  | some (.flag label value) =>
    Flags.ignoreDefault.handles label &&
      value.all fun text => (Text.values text).any (answersTo names)
  | _ => false

/-- The word searches everywhere, or in a selection. -/
def liftsRadius (word : String) : Bool :=
  match Word.parse? word with
  | some (.flag label _) =>
    Flags.global.handles label || (Flags.selection fun _ => none).handles label
  | _ => false

/-- The word is an argument under one of these aliases. -/
def asks (aliases : List String) (word : String) : Bool :=
  match Word.parse? word with
  | some (.parameter argument) => answersTo aliases argument.label
  | _ => false

theorem asks_iff {aliases : List String} {word : String} : asks aliases word = true ↔
    ∃ argument, Word.parse? word = some (.parameter argument) ∧
      answersTo aliases argument.label = true := by
  unfold asks
  split
  next argument parsed => simp [parsed]
  next other =>
    constructor
    · intro never
      cases never
    · rintro ⟨argument, parsed, -⟩
      exact absurd parsed (other argument)

theorem Withdraws.word {names : List String} {name label word : String} {value : Option String}
    (withdraws : Withdraws name label value) (member : name ∈ names)
    (lower : ∀ name ∈ names, Text.lower name = name)
    (parsed : Word.parse? word = some (.flag label value)) :
    ignoresDefault names word = true ∨ (name = "radius" ∧ liftsRadius word = true) := by
  unfold ignoresDefault liftsRadius
  rw [parsed]
  rcases withdraws with ⟨handles, listed⟩ | ⟨radius, lifts⟩
  · refine .inl (Bool.and_eq_true_iff.mpr ⟨handles, ?_⟩)
    rw [Option.all_eq_true]
    intro text given
    obtain ⟨v, known, same⟩ := listed text given
    exact List.any_eq_true.mpr
      ⟨v, known, answersTo_iff.mpr ⟨name, member, same.trans (lower name member).symm⟩⟩
  · exact .inr ⟨radius, Bool.or_eq_true_iff.mpr lifts⟩

theorem placed_of_references {all : List Condition} (leaves : ∀ c ∈ all, c.IsLeaf)
    {conditions : List Condition} (kept : conditions ⊆ all)
    (references : Condition.referencesAny Field.world conditions = true) :
    Placed all := by
  induction conditions with
  | nil => cases references
  | cons c rest ih =>
    rw [Condition.referencesAny, Bool.or_eq_true] at references
    rcases references with here | later
    · obtain ⟨l, rfl⟩ := leaves c (kept List.mem_cons_self)
      simp only [Condition.references, decide_eq_true_eq] at here
      exact ⟨l, kept List.mem_cons_self, here⟩
    · exact ih (fun _ member => kept (List.mem_cons_of_mem _ member)) later

section Bounds

variable {settings : Settings} {players : Players} {compiler : Compiler} {now : Instant}
  {requester : Requester} {words : List String} {p : Progress} {made : List Call}

theorem dated_of_sound (standard : compiler.Standard settings players)
    (sound : p.Sound requester words) (asked : compiler.callsAfter now p = .ok made)
    (defaults : compiler.settings.defaultsEnabled = true)
    (kept : ∀ word ∈ words, ignoresDefault timeAliases word = false) :
    Dated (p.query.conditions ++ made.flatMap Call.conditions) := by
  have member : time settings.defaultTime ∈ compiler.registry.parameters := by
    rw [standard.parameters]
    exact Registry.time_mem settings players
  cases settled : Compiler.isSettled p.session p.given (time settings.defaultTime) with
  | false =>
    obtain ⟨call, within, answered, -⟩ :=
      Compiler.callsAfter_unsettled asked defaults member settled
    obtain ⟨t, argument, stood⟩ := time_standIn answered
    refine ⟨t, Compiler.conditions_subset within _ ?_⟩
    rw [Call.conditions, stood]
    exact List.mem_cons_self
  | true =>
    rcases Compiler.isSettled_cases settled with ⟨name, own, ignored⟩ | ⟨label, known, handles⟩
    · obtain ⟨word, within, label, value, parsed, withdraws⟩ := sound.withdrawn name ignored
      have named : name ∈ timeAliases := by
        rcases List.mem_cons.mp own with rfl | own
        · exact List.mem_cons_of_mem _ List.mem_cons_self
        · exact own
      rcases withdraws.word named (by decide) parsed with ignores | ⟨rfl, -⟩
      · rw [kept word within] at ignores
        cases ignores
      · exact absurd named (by decide)
    · exact (sound.dated label known handles).mono (List.subset_append_left _ _)

theorem placed_of_sound (standard : compiler.Standard settings players)
    (sound : p.Sound requester words) (asked : compiler.callsAfter now p = .ok made)
    (defaults : compiler.settings.defaultsEnabled = true)
    (located : requester.location?.isSome = true)
    (kept : ∀ word ∈ words, ignoresDefault radiusAliases word = false ∧ liftsRadius word = false) :
    Placed (p.query.conditions ++ made.flatMap Call.conditions) := by
  have flat : ∀ h ∈ compiler.registry.parameters, h.Flat := by
    intro h member
    rw [standard.parameters] at member
    exact Registry.flat_builtin member
  have leaves : ∀ c ∈ p.query.conditions ++ made.flatMap Call.conditions, c.IsLeaf := by
    intro c member
    rcases List.mem_append.mp member with own | added
    · exact sound.leaves c own
    · obtain ⟨call, within, gave⟩ := List.mem_flatMap.mp added
      exact Compiler.callsAfter_leaves asked flat within c gave
  have member : radius settings.defaultRadius settings.radiusLimit ∈
      compiler.registry.parameters := by
    rw [standard.parameters]
    exact Registry.radius_mem settings players
  cases settled : Compiler.isSettled p.session p.given
      (radius settings.defaultRadius settings.radiusLimit) with
  | false =>
    obtain ⟨call, within, answered, seen⟩ :=
      Compiler.callsAfter_unsettled asked defaults member settled
    rcases radius_standIn answered with ⟨nowhere, -⟩ | ⟨named, -⟩ | ⟨place, argument, stood⟩
    · rw [sound.requester] at nowhere
      rw [nowhere] at located
      cases located
    · exact placed_of_references leaves seen named
    · apply (placed_cube place settings.defaultRadius).mono
      have gave := Compiler.conditions_subset within p.query.conditions
      rw [Call.conditions, stood] at gave
      exact gave
  | true =>
    rcases Compiler.isSettled_cases settled with ⟨name, own, ignored⟩ | ⟨label, known, handles⟩
    · obtain ⟨word, within, label, value, parsed, withdraws⟩ := sound.withdrawn name ignored
      have named : name ∈ radiusAliases := by
        rcases List.mem_cons.mp own with rfl | own
        · exact List.mem_cons_of_mem _ List.mem_cons_self
        · exact own
      rcases withdraws.word named (by decide) parsed with ignores | ⟨-, lifts⟩
      · rw [(kept word within).1] at ignores
        cases ignores
      · rw [(kept word within).2] at lifts
        cases lifts
    · exact (sound.placed label known handles).mono (List.subset_append_left _ _)

theorem Progress.Sound.exclusive (sound : p.Sound requester words) :
    ¬ ((∃ word ∈ words, asks radiusAliases word = true) ∧
      ∃ word ∈ words, asks worldAliases word = true) := by
  rintro ⟨⟨word, within, near⟩, ⟨word', within', far⟩⟩
  obtain ⟨argument, parsed, near⟩ := asks_iff.mp near
  obtain ⟨argument', parsed', far⟩ := asks_iff.mp far
  obtain ⟨label, known, same⟩ := sound.kept word within argument parsed
  obtain ⟨label', known', same'⟩ := sound.kept word' within' argument' parsed'
  rw [← answersTo_congr same] at near
  rw [← answersTo_congr same', sound.apart label known label' known' near] at far
  cases far

end Bounds

/-- Where there are defaults, an accepted search is bounded in time unless a flag withdraws the
default of time; for a requester somewhere it is bounded in place unless a flag withdraws the default
of the radius. No accepted search names both a radius and a world. -/
theorem searches_bounded (settings : Settings) (players : Players)
    (providers : List (Option SelectionProvider)) (now : Instant) (requester : Requester)
    (zone : Zone) (words : List String) (session : Session) (compiled : Compiled)
    (prepared : (providers.foldl Compiler.setSelection (.builtin settings players)).prepare now
      (.start requester zone) words = (session, .ok compiled)) :
    (settings.defaultsEnabled = true →
      ((∀ word ∈ words, ignoresDefault timeAliases word = false) →
        ∃ t, Condition.since Field.created t Field.created_ne ∈ compiled.query.conditions) ∧
      (requester.location?.isSome = true →
        (∀ word ∈ words, ignoresDefault radiusAliases word = false ∧ liftsRadius word = false) →
        ∃ l, Condition.leaf l ∈ compiled.query.conditions ∧ l.field = Field.world)) ∧
    ¬ ((∃ word ∈ words, asks radiusAliases word = true) ∧
      ∃ word ∈ words, asks worldAliases word = true) := by
  have standard := Compiler.standard_builtin settings players providers
  obtain ⟨p, made, taken, -, asked, rfl⟩ := Compiler.prepare_accepted prepared
  have sound := (Progress.Sound.start _ requester zone).run standard taken
  rw [List.nil_append] at sound
  refine ⟨?_, sound.exclusive⟩
  intro defaults
  rw [← standard.configured] at defaults
  refine ⟨dated_of_sound standard sound asked defaults, ?_⟩
  intro located kept
  exact placed_of_sound standard sound asked defaults located kept

def digger : Requester :=
  .player ⟨"digger", default, ⟨"nether", ⟨0⟩, ⟨0⟩, ⟨0⟩⟩, []⟩

def clock : Instant := Archive.noon

theorem digger_bounded : ∃ session compiled,
    ([some fun _ => none].foldl Compiler.setSelection (.builtin .standard default)).prepare clock
      (.start digger .utc) ["-ID=c", "A:break", "T:1h"] = (session, .ok compiled) ∧
    Settings.standard.defaultsEnabled = true ∧
    Dated compiled.query.conditions ∧ Placed compiled.query.conditions := by
  have accepted : (([some fun _ => none].foldl Compiler.setSelection
      (.builtin .standard default)).prepare clock (.start digger .utc)
        ["-ID=c", "A:break", "T:1h"]).2.isOk = true := by decide +kernel
  obtain ⟨compiled, prepared⟩ := Compiler.prepare_isOk accepted
  obtain ⟨bounded, -⟩ := searches_bounded .standard default [some fun _ => none] clock digger
    .utc ["-ID=c", "A:break", "T:1h"] _ compiled prepared
  obtain ⟨dated, placed⟩ := bounded rfl
  exact ⟨_, compiled, prepared, rfl, dated (by decide +kernel), placed rfl (by decide +kernel)⟩

end AuditLog.Search
