import AuditLog.Proofs.SelectionToggles

/-! What the built-in handlers may do to a search. No two parameters share an alias in any letter
case; all conditions compare single fields; and a default is withdrawn only by the flags that say
so, whoever provides selections. -/
namespace AuditLog

/-- The condition compares one field. -/
def Condition.IsLeaf (c : Condition) : Prop := ∃ l, c = .leaf l

namespace Condition

theorem isLeaf_oneOf {field : Path} (texts : List String) (field_ne : field.segments ≠ []) :
    (oneOf field texts field_ne).IsLeaf := by
  unfold oneOf
  split
  · exact ⟨_, rfl⟩
  · exact ⟨_, rfl⟩

end Condition

namespace Search

def Parameters.timeAliases : List String := ["t", "time", "since"]

section Except

variable {ε α β : Type} {f : α → β} {result : Except ε α}

theorem error_of_map {e : ε} (failed : result.map f = .error e) : result = .error e := by
  cases result with
  | error other =>
    cases failed
    rfl
  | ok a => cases failed

theorem ok_of_map {b : β} (ended : result.map f = .ok b) : ∃ a, result = .ok a ∧ f a = b := by
  cases result with
  | error e => cases ended
  | ok a =>
    cases ended
    exact ⟨a, rfl, rfl⟩

end Except

namespace Registry

theorem parameter?_some {registry : Registry} {label : String} {h : ParameterHandler}
    (found : registry.parameter? label = some h) :
    h ∈ registry.parameters ∧ h.handles label = true := by
  unfold parameter? at found
  have handles := List.find?_some found
  exact ⟨List.mem_of_find?_eq_some found, handles⟩

theorem flag?_some {registry : Registry} {label : String} {h : FlagHandler}
    (found : registry.flag? label = some h) : h ∈ registry.flags ∧ h.handles label = true := by
  unfold flag? at found
  have handles := List.find?_some found
  exact ⟨List.mem_of_find?_eq_some found, handles⟩

theorem time_mem (settings : Settings) (players : Players) :
    Parameters.time settings.defaultTime ∈ builtinParameters settings players := by
  simp [builtinParameters]

theorem radius_mem (settings : Settings) (players : Players) :
    Parameters.radius settings.defaultRadius settings.radiusLimit ∈
      builtinParameters settings players := by
  simp [builtinParameters]

theorem world_mem (settings : Settings) (players : Players) :
    Parameters.world ∈ builtinParameters settings players := by
  simp [builtinParameters]

theorem aliases_apart (settings : Settings) (players : Players) :
    ((builtinParameters settings players).map ParameterHandler.aliases).Pairwise Apart := by
  have fixed : (builtinParameters settings players).map ParameterHandler.aliases =
      (builtinParameters .standard default).map ParameterHandler.aliases := by
    simp only [builtinParameters, List.map]
    rfl
  rw [fixed]
  decide +kernel

theorem handler_unique {settings : Settings} {players : Players} {h other : ParameterHandler}
    (member : h ∈ builtinParameters settings players)
    (member' : other ∈ builtinParameters settings players) {label : String}
    (handles : h.handles label = true) (handles' : other.handles label = true) : h = other :=
  unique_of_apart (List.pairwise_map.mp (aliases_apart settings players)) member member' handles
    handles'

end Registry

/-- All conditions that the parameter adds compare single fields. -/
structure ParameterHandler.Flat (h : ParameterHandler) : Prop where
  build : ∀ now session argument c, h.build now session argument = .ok c →
    ∀ condition ∈ c.conditions, condition.IsLeaf
  standIn : ∀ now session query used conditions,
    h.standIn now session query = .ok (some (used, conditions)) →
    ∀ condition ∈ conditions, condition.IsLeaf

namespace Parameters

theorem flat_plain (name : String) (aliases : List String) (accepts : String → Bool)
    {condition : Argument → Except SearchError Condition}
    (leaf : ∀ argument c, condition argument = .ok c → c.IsLeaf) :
    (plain name aliases accepts condition).Flat := by
  constructor
  · intro _ _ argument c built other member
    simp only [plain] at built
    obtain ⟨first, made, rfl⟩ := ok_of_map built
    cases List.mem_singleton.mp member
    exact leaf argument _ made
  · intro _ _ _ _ _ stands
    cases stands

theorem flat_event : event.Flat := by
  apply flat_plain
  rintro argument c ⟨⟩
  exact Condition.isLeaf_oneOf _ _

theorem flat_literal (name : String) (aliases : List String) {field : Path}
    (field_ne : field.segments ≠ []) : (literal name aliases field field_ne).Flat := by
  apply flat_plain
  rintro argument c ⟨⟩
  exact Condition.isLeaf_oneOf _ _

theorem flat_freeText (name : String) (aliases : List String) {field : Path}
    (field_ne : field.segments ≠ []) : (freeText name aliases field field_ne).Flat := by
  apply flat_plain
  rintro argument c ⟨⟩
  exact ⟨_, rfl⟩

theorem flat_world : world.Flat := by
  have flat : (plain "world" worldAliases isIdentifierList
      fun argument => .ok (.oneOf Field.world (Text.values argument.value))).Flat := by
    apply flat_plain
    rintro argument c ⟨⟩
    exact Condition.isLeaf_oneOf _ _
  exact ⟨flat.build, flat.standIn⟩

theorem flat_ip : ip.Flat := by
  apply flat_plain
  intro argument c made
  split at made
  · cases made
    exact Condition.isLeaf_oneOf _ _
  · cases made

theorem flat_custom : custom.Flat := by
  apply flat_plain
  intro argument c made
  split at made
  · cases made
    exact ⟨_, rfl⟩
  · cases made

theorem flat_named (name : String) (aliases : List String) {field : Path}
    (field_ne : field.segments ≠ []) (players : Players) :
    (named name aliases field field_ne players).Flat := by
  constructor
  · rintro _ _ argument c ⟨⟩ condition member
    cases member
  · intro _ _ _ _ _ stands
    cases stands

theorem flat_cube (place : Location) (radius : Nat) : ∀ c ∈ cube place radius, c.IsLeaf := by
  intro c member
  simp only [cube, List.mem_cons, List.not_mem_nil, or_false] at member
  rcases member with rfl | rfl | rfl | rfl <;> exact ⟨_, rfl⟩

theorem radius_build {standard limit : Nat} {now : Instant} {session : Session}
    {argument : Argument} {c : Contribution}
    (built : (radius standard limit).build now session argument = .ok c) :
    ∃ place n, c.conditions = cube place n := by
  simp only [radius] at built
  split at built
  next => cases built
  next place _ =>
    split at built
    next => cases built
    next =>
      cases built
      exact ⟨place, _, rfl⟩

/-- Without an argument, the cube around the requester, unless there is none or the query names a
world. -/
theorem radius_standIn {standard limit : Nat} {now : Instant} {session : Session} {query : Query}
    {used : Option (Argument × List Condition)}
    (stands : (radius standard limit).standIn now session query = .ok used) :
    (session.requester.location? = none ∧ used = none) ∨
      (query.references Field.world = true ∧ used = none) ∨
      ∃ place argument, used = some (argument, cube place standard) := by
  simp only [radius] at stands
  split at stands
  next nowhere =>
    cases stands
    exact .inl ⟨nowhere, rfl⟩
  next place _ =>
    split at stands
    next named =>
      cases stands
      exact .inr (.inl ⟨named, rfl⟩)
    next =>
      cases stands
      exact .inr (.inr ⟨place, _, rfl⟩)

theorem flat_radius (standard limit : Nat) : (radius standard limit).Flat := by
  constructor
  · intro _ _ _ c built condition member
    obtain ⟨place, n, cube⟩ := radius_build built
    rw [cube] at member
    exact flat_cube place n condition member
  · intro _ _ _ _ _ stands condition member
    rcases radius_standIn stands with ⟨-, none⟩ | ⟨-, none⟩ | ⟨place, argument, some⟩
    · cases none
    · cases none
    · cases some
      exact flat_cube place standard condition member

theorem sinceCutoff_ok {now : Instant} {argument : Argument} {c : Condition}
    (made : sinceCutoff now argument = .ok c) :
    ∃ t, c = .since Field.created t Field.created_ne := by
  unfold sinceCutoff at made
  split at made
  next t _ =>
    cases made
    exact ⟨t, rfl⟩
  next => cases made

theorem sinceCutoff_error {now : Instant} {argument : Argument} {e : SearchError}
    (refused : sinceCutoff now argument = .error e) :
    cutoff? now argument.value = none ∧ e = .invalidValue argument.label argument.value := by
  unfold sinceCutoff at refused
  split at refused
  next => cases refused
  next none =>
    cases refused
    exact ⟨none, rfl⟩

theorem time_build {standard : String} {now : Instant} {session : Session} {argument : Argument}
    {c : Contribution} (built : (time standard).build now session argument = .ok c) :
    ∃ t, c.conditions = [.since Field.created t Field.created_ne] := by
  simp only [time] at built
  obtain ⟨condition, made, rfl⟩ := ok_of_map built
  obtain ⟨t, rfl⟩ := sinceCutoff_ok made
  exact ⟨t, rfl⟩

theorem time_standIn {standard : String} {now : Instant} {session : Session} {query : Query}
    {used : Option (Argument × List Condition)}
    (stands : (time standard).standIn now session query = .ok used) :
    ∃ t argument, used = some (argument, [.since Field.created t Field.created_ne]) := by
  simp only [time] at stands
  obtain ⟨condition, made, rfl⟩ := ok_of_map stands
  obtain ⟨t, rfl⟩ := sinceCutoff_ok made
  exact ⟨t, _, rfl⟩

theorem time_standIn_error {standard : String} {now : Instant} {session : Session} {query : Query}
    {e : SearchError} (refused : (time standard).standIn now session query = .error e) :
    cutoff? now standard = none ∧ e = .invalidValue "t" standard := by
  simp only [time] at refused
  exact sinceCutoff_error (error_of_map refused)

theorem flat_time (standard : String) : (time standard).Flat := by
  constructor
  · intro _ _ _ c built condition member
    obtain ⟨t, since⟩ := time_build built
    rw [since] at member
    cases List.mem_singleton.mp member
    exact ⟨_, rfl⟩
  · intro _ _ _ _ _ stands condition member
    obtain ⟨t, argument, since⟩ := time_standIn stands
    cases since
    cases List.mem_singleton.mp member
    exact ⟨_, rfl⟩

end Parameters

open Parameters in
theorem Registry.flat_builtin {settings : Settings} {players : Players} {h : ParameterHandler}
    (member : h ∈ builtinParameters settings players) : h.Flat := by
  simp only [builtinParameters, List.mem_cons, List.not_mem_nil, or_false] at member
  rcases member with rfl | rfl | rfl | rfl | rfl | rfl | rfl | rfl | rfl | rfl | rfl | rfl | rfl |
    rfl | rfl | rfl
  · exact flat_event
  · exact flat_named _ _ _ players
  · exact flat_named _ _ _ players
  · exact flat_radius _ _
  · exact flat_time _
  · exact flat_world
  · exact flat_literal _ _ _
  · exact flat_literal _ _ _
  · exact flat_literal _ _ _
  · exact flat_literal _ _ _
  · exact flat_literal _ _ _
  · exact flat_freeText _ _ _
  · exact flat_freeText _ _ _
  · exact flat_freeText _ _ _
  · exact flat_ip
  · exact flat_custom

open Parameters in
/-- Only the time may fail to stand in, when its default reaches back too far. -/
theorem Registry.standIn_error {settings : Settings} {players : Players} {h : ParameterHandler}
    (member : h ∈ builtinParameters settings players) {now : Instant} {session : Session}
    {query : Query} {e : SearchError} (refused : h.standIn now session query = .error e) :
    h = time settings.defaultTime ∧ cutoff? now settings.defaultTime = none ∧
      e = .invalidValue "t" settings.defaultTime := by
  simp only [builtinParameters, List.mem_cons, List.not_mem_nil, or_false] at member
  rcases member with rfl | rfl | rfl | rfl | rfl | rfl | rfl | rfl | rfl | rfl | rfl | rfl | rfl |
    rfl | rfl | rfl
  case inr.inr.inr.inl =>
    simp only [radius] at refused
    split at refused
    · cases refused
    · split at refused <;> cases refused
  case inr.inr.inr.inr.inl => exact ⟨rfl, time_standIn_error refused⟩
  all_goals cases refused

/-- The flag with this label and value withdraws the default of this name. -/
def Withdraws (name label : String) (value : Option String) : Prop :=
  (Flags.ignoreDefault.handles label = true ∧
    ∀ text, value = some text → ∃ v ∈ Text.values text, Text.lower v = name) ∨
  (name = "radius" ∧ (Flags.global.handles label = true ∨
    (Flags.selection fun _ => none).handles label = true))

/-- The flag keeps the requester, adds conditions on single fields only and withdraws no default
but those that it should. -/
def FlagHandler.Mild (h : FlagHandler) : Prop :=
  ∀ session label value session' c, h.handles label = true →
    h.apply session label value = .ok (session', c) →
    session'.requester = session.requester ∧ (∀ condition ∈ c.conditions, condition.IsLeaf) ∧
    ∀ name, session'.ignores name = true → session.ignores name = true ∨ Withdraws name label value

end Search

namespace Session

theorem requester_turnOn (session : Session) (s : Switch) :
    (session.turnOn s).requester = session.requester := by
  rw [turnOn_eq]

theorem ignores_turnOn (session : Session) (s : Switch) (name : String) :
    (session.turnOn s).ignores name = session.ignores name := by
  rw [turnOn_eq, ignores, ignores]

theorem requester_ignore (session : Session) (name : String) :
    (session.ignore name).requester = session.requester := by
  unfold ignore
  split <;> rfl

theorem ignores_ignore {session : Session} {name other : String}
    (ignored : (session.ignore name).ignores other = true) :
    session.ignores other = true ∨ other = name := by
  unfold ignore at ignored
  split at ignored
  · exact .inl ignored
  · simp only [ignores, List.contains_eq_mem, List.mem_append, List.mem_singleton,
      Bool.or_eq_true, decide_eq_true_eq] at ignored ⊢
    rcases ignored with all | known | new
    · exact .inl (.inl all)
    · exact .inl (.inr known)
    · exact .inr new

theorem ignoring_each (names : List String) (session : Session) :
    (names.foldl (fun s name => s.ignore (Text.lower name)) session).requester =
        session.requester ∧
      ∀ other, (names.foldl (fun s name => s.ignore (Text.lower name)) session).ignores other =
          true → session.ignores other = true ∨ ∃ v ∈ names, Text.lower v = other := by
  induction names generalizing session with
  | nil => exact ⟨rfl, fun _ ignored => .inl ignored⟩
  | cons name rest ih =>
    obtain ⟨same, ignored⟩ := ih (session.ignore (Text.lower name))
    refine ⟨same.trans (session.requester_ignore _), ?_⟩
    intro other later
    rcases ignored other later with before | ⟨v, member, lower⟩
    · rcases ignores_ignore before with old | rfl
      · exact .inl old
      · exact .inr ⟨name, List.mem_cons_self, rfl⟩
    · exact .inr ⟨v, List.mem_cons_of_mem _ member, lower⟩

end Session

namespace Search

namespace Flags

theorem mild_switch (name : String) (aliases : List String) (s : Switch) :
    (plain name aliases (·.turnOn s)).Mild := by
  rintro session label value session' c - ⟨⟩
  refine ⟨session.requester_turnOn s, ?_, ?_⟩
  · intro condition member
    cases member
  · intro name ignored
    exact .inl (session.ignores_turnOn s name ▸ ignored)

theorem mild_global : global.Mild := by
  rintro session label value session' c handles ⟨⟩
  refine ⟨(Session.requester_ignore _ _).trans (session.requester_turnOn _), ?_, ?_⟩
  · intro condition member
    cases member
  · intro name ignored
    rcases Session.ignores_ignore ignored with before | radius
    · exact .inl (session.ignores_turnOn _ name ▸ before)
    · exact .inr (.inr ⟨radius, .inl handles⟩)

theorem mild_order : order.Mild := by
  intro session label value session' c _ applied
  simp only [order] at applied
  split at applied
  · cases applied
  · split at applied
    · cases applied
      refine ⟨rfl, ?_, fun name ignored => .inl ignored⟩
      intro condition member
      cases member
    · cases applied

theorem mild_ignoreDefault : ignoreDefault.Mild := by
  intro session label value session' c handles applied
  simp only [ignoreDefault] at applied
  split at applied
  · cases applied
    refine ⟨session.requester_turnOn _, ?_, ?_⟩
    · intro condition member
      cases member
    · intro name _
      exact .inr (.inl ⟨handles, by simp⟩)
  next text =>
    cases applied
    obtain ⟨same, ignored⟩ := Session.ignoring_each (Text.values text)
      (session.turnOn .ignoreDefault)
    refine ⟨same.trans (session.requester_turnOn _), ?_, ?_⟩
    · intro condition member
      cases member
    · intro name later
      rcases ignored name later with before | listed
      · exact .inl (session.ignores_turnOn _ name ▸ before)
      · refine .inr (.inl ⟨handles, ?_⟩)
        rintro _ ⟨⟩
        exact listed

theorem mild_selection (provider : SelectionProvider) : (selection provider).Mild := by
  intro session label value session' c handles applied
  simp only [selection] at applied
  split at applied
  · cases applied
  next region _ =>
    cases applied
    refine ⟨(Session.requester_ignore _ _).trans (session.requester_turnOn _), ?_, ?_⟩
    · intro condition member
      simp only [Region.conditions, Region.span, List.mem_cons, List.not_mem_nil, or_false] at member
      rcases member with rfl | rfl | rfl | rfl <;> exact ⟨_, rfl⟩
    · intro name ignored
      rcases Session.ignores_ignore ignored with before | radius
      · exact .inl (session.ignores_turnOn _ name ▸ before)
      · exact .inr (.inr ⟨radius, .inr handles⟩)

end Flags

theorem Registry.mild_builtin {settings : Settings} {h : FlagHandler}
    (member : h ∈ builtinFlags settings) : h.Mild := by
  simp only [builtinFlags, List.mem_append, List.mem_cons, List.not_mem_nil, or_false] at member
  rcases member with (rfl | rfl | rfl | rfl | rfl) | defaults
  · exact Flags.mild_switch _ _ _
  · exact Flags.mild_switch _ _ _
  · exact Flags.mild_switch _ _ _
  · exact Flags.mild_switch _ _ _
  · exact Flags.mild_order
  · split at defaults
    · simp only [List.mem_cons, List.not_mem_nil, or_false] at defaults
      rcases defaults with rfl | rfl
      · exact Flags.mild_ignoreDefault
      · exact Flags.mild_global
    · cases defaults

namespace Compiler

/-- The compiler has the built-in parameters, and its flags are all mild. -/
structure Standard (settings : Settings) (players : Players) (compiler : Compiler) : Prop where
  configured : compiler.settings = settings
  parameters : compiler.registry.parameters = Registry.builtinParameters settings players
  flags : ∀ h ∈ compiler.registry.flags, h.Mild

/-- Providers of selections may come and go. -/
theorem standard_builtin (settings : Settings) (players : Players)
    (providers : List (Option SelectionProvider)) :
    (providers.foldl setSelection (builtin settings players)).Standard settings players := by
  rw [setSelection_run Registry.builtinFlags_not_selection]
  refine ⟨rfl, rfl, ?_⟩
  intro h member
  rcases mem_offering member with old | ⟨p, rfl⟩
  · exact Registry.mild_builtin old
  · exact Flags.mild_selection p

end Compiler
end Search
end AuditLog
