import AuditLog.Proofs.SearchHandlers

/-! Registering parameters, whatever their aliases. A call is refused exactly when an alias of the
new handler is taken in some letter case; otherwise the handler is appended. So no two parameters
ever share an alias, and a look-up finds the only handler that answers, however the same handlers
are arranged. -/
namespace AuditLog.Search.Registry

/-- No two parameters share an alias in any letter case. -/
def AliasesApart (registry : Registry) : Prop :=
  registry.parameters.Pairwise fun h other => Apart h.aliases other.aliases

/-- Some parameter has this alias in some letter case. -/
def Owns (registry : Registry) (label : String) : Prop :=
  ∃ h ∈ registry.parameters, ∃ name ∈ h.aliases, Text.lower label = Text.lower name

/-- What a call leaves; a refused one leaves the registry as it was. -/
def call (registry : Registry) (h : ParameterHandler) : Registry :=
  match registry.addParameter h with
  | .ok grown => grown
  | .error _ => registry

def callAll (registry : Registry) (handlers : List ParameterHandler) : Registry :=
  handlers.foldl call registry

def append (registry : Registry) (handlers : List ParameterHandler) : Registry :=
  { registry with parameters := registry.parameters ++ handlers }

variable {registry : Registry} {h : ParameterHandler} {label : String}

theorem parameter?_isNone : registry.parameter? label = none ↔ ¬ registry.Owns label := by
  rw [parameter?, List.find?_eq_none]
  simp only [Owns, ParameterHandler.handles, answersTo_iff, not_exists, not_and]

theorem conflict?_isNone :
    registry.conflict? h = none ↔ ∀ name ∈ h.aliases, ¬ registry.Owns name := by
  rw [conflict?, List.findSome?_eq_none_iff]
  simp only [Option.map_eq_none_iff, parameter?_isNone]

/-- The conflict reported is that of the first alias that is taken. -/
theorem conflict?_some {e : AliasConflict} : registry.conflict? h = some e ↔
    ∃ free name rest existing, h.aliases = free ++ name :: rest ∧
      (∀ other ∈ free, ¬ registry.Owns other) ∧ registry.parameter? name = some existing ∧
      e = ⟨name, h.name, existing.name⟩ := by
  rw [conflict?, List.findSome?_eq_some_iff]
  simp only [Option.map_eq_none_iff, parameter?_isNone, Option.map_eq_some_iff]
  constructor
  · rintro ⟨free, name, rest, aliases, ⟨existing, found, rfl⟩, first⟩
    exact ⟨free, name, rest, existing, aliases, first, found, rfl⟩
  · rintro ⟨free, name, rest, existing, aliases, first, found, rfl⟩
    exact ⟨free, name, rest, aliases, ⟨existing, found, rfl⟩, first⟩

theorem addParameter_free (free : ∀ name ∈ h.aliases, ¬ registry.Owns name) :
    registry.addParameter h = .ok (registry.append [h]) := by
  rw [addParameter, conflict?_isNone.mpr free]
  rfl

theorem addParameter_taken {name : String} (own : name ∈ h.aliases) (taken : registry.Owns name) :
    ∃ e, registry.addParameter h = .error e := by
  rw [addParameter]
  cases conflict : registry.conflict? h with
  | none => exact absurd taken (conflict?_isNone.mp conflict name own)
  | some e => exact ⟨e, rfl⟩

theorem call_free (free : ∀ name ∈ h.aliases, ¬ registry.Owns name) :
    registry.call h = registry.append [h] := by
  rw [call, addParameter_free free]

theorem call_taken {name : String} (own : name ∈ h.aliases) (taken : registry.Owns name) :
    registry.call h = registry := by
  obtain ⟨e, refused⟩ := addParameter_taken own taken
  rw [call, refused]

/-- The aliases of a handler are free exactly when it can stand beside all parameters. -/
theorem free_iff : (∀ name ∈ h.aliases, ¬ registry.Owns name) ↔
    ∀ other ∈ registry.parameters, Apart other.aliases h.aliases := by
  constructor
  · intro free other member name own name' own' same
    exact free name' own' ⟨other, member, name, own, same.symm⟩
  · rintro apart name own ⟨other, member, name', own', same⟩
    exact apart other member name' own' name own same.symm

theorem AliasesApart.append (apart : registry.AliasesApart)
    (free : ∀ name ∈ h.aliases, ¬ registry.Owns name) : (registry.append [h]).AliasesApart := by
  refine List.pairwise_append.mpr ⟨apart, List.pairwise_singleton _ _, ?_⟩
  intro other member new single
  cases List.mem_singleton.mp single
  exact free_iff.mp free other member

theorem AliasesApart.call (apart : registry.AliasesApart) (h : ParameterHandler) :
    (registry.call h).AliasesApart := by
  by_cases free : ∀ name ∈ h.aliases, ¬ registry.Owns name
  · rw [call_free free]
    exact apart.append free
  · obtain ⟨name, own, taken⟩ : ∃ name ∈ h.aliases, registry.Owns name := by
      simpa only [not_forall, not_not, exists_prop] using free
    rw [call_taken own taken]
    exact apart

theorem AliasesApart.callAll (apart : registry.AliasesApart) (handlers : List ParameterHandler) :
    (registry.callAll handlers).AliasesApart := by
  induction handlers generalizing registry with
  | nil => exact apart
  | cons h rest ih => exact ih (apart.call h)

/-- Calls that could all be accepted together are all accepted. -/
theorem callAll_of_apart {handlers : List ParameterHandler}
    (together : (registry.append handlers).AliasesApart) :
    registry.callAll handlers = registry.append handlers := by
  induction handlers generalizing registry with
  | nil => simp [callAll, append]
  | cons h rest ih =>
    have free : ∀ name ∈ h.aliases, ¬ registry.Owns name := by
      rw [free_iff]
      intro other member
      exact (List.pairwise_append.mp together).2.2 other member h List.mem_cons_self
    have same : (registry.append [h]).append rest = registry.append (h :: rest) := by
      simp [append]
    have later : (registry.call h).callAll rest = (registry.append [h]).append rest := by
      rw [call_free free]
      exact ih (same ▸ together)
    exact later.trans same

/-- A look-up finds the only parameter that answers. -/
theorem AliasesApart.parameter?_iff (apart : registry.AliasesApart) :
    registry.parameter? label = some h ↔ h ∈ registry.parameters ∧ h.handles label = true := by
  constructor
  · exact parameter?_some
  · rintro ⟨member, handles⟩
    cases found : registry.parameter? label with
    | none =>
      rw [parameter?, List.find?_eq_none] at found
      exact absurd handles (found h member)
    | some first =>
      obtain ⟨member', handles'⟩ := parameter?_some found
      rw [unique_of_apart apart member' member handles' handles]

/-- A refusal names the first alias that is taken and its only owner. -/
theorem AliasesApart.addParameter_error (apart : registry.AliasesApart) {e : AliasConflict} :
    registry.addParameter h = .error e ↔
      ∃ free name rest existing, h.aliases = free ++ name :: rest ∧
        (∀ other ∈ free, ¬ registry.Owns other) ∧
        existing ∈ registry.parameters ∧ existing.handles name = true ∧
        (∀ other ∈ registry.parameters, other.handles name = true → other = existing) ∧
        e = ⟨name, h.name, existing.name⟩ := by
  have reported : registry.addParameter h = .error e ↔ registry.conflict? h = some e := by
    rw [addParameter]
    cases registry.conflict? h <;> simp
  rw [reported, conflict?_some]
  constructor
  · rintro ⟨free, name, rest, existing, aliases, others, found, rfl⟩
    obtain ⟨member, handles⟩ := apart.parameter?_iff.mp found
    refine ⟨free, name, rest, existing, aliases, others, member, handles, ?_, rfl⟩
    intro other member' handles'
    exact unique_of_apart apart member' member handles' handles
  · rintro ⟨free, name, rest, existing, aliases, others, member, handles, -, rfl⟩
    exact ⟨free, name, rest, existing, aliases, others,
      apart.parameter?_iff.mpr ⟨member, handles⟩, rfl⟩

/-- The order in which the parameters stand does not matter. -/
theorem AliasesApart.parameter?_perm (apart : registry.AliasesApart) {other : Registry}
    (perm : other.parameters.Perm registry.parameters) (label : String) :
    other.parameter? label = registry.parameter? label := by
  have apart' : other.AliasesApart := apart.perm perm.symm Apart.symm
  ext h
  rw [apart'.parameter?_iff, apart.parameter?_iff, perm.mem_iff]

theorem apart_builtin (settings : Settings) (players : Players) :
    (builtin settings players).AliasesApart :=
  List.pairwise_map.mp (aliases_apart settings players)

/-- The built-in parameters are accepted one by one. -/
theorem callAll_builtin (settings : Settings) (players : Players) :
    (callAll ⟨[], builtinFlags settings⟩ (builtinParameters settings players)) =
      builtin settings players :=
  callAll_of_apart (apart_builtin settings players)

/-- After any calls no two parameters share an alias. A further call is refused exactly when an
alias of the handler is taken, naming the first such alias and its only owner; then nothing changes,
and otherwise the handler is appended. A look-up finds the only handler that answers. Neither the
order of the handlers nor that of the calls matters to it, as long as all calls are accepted, and
in any order they are. -/
theorem aliases_stay_apart {start : Registry}
    (initial : start = .empty ∨ ∃ settings players, start = .builtin settings players)
    (calls : List ParameterHandler) :
    let registry := start.callAll calls
    registry.AliasesApart ∧
      (∀ h e, registry.addParameter h = .error e ↔
        ∃ free name rest existing, h.aliases = free ++ name :: rest ∧
          (∀ other ∈ free, ¬ registry.Owns other) ∧
          existing ∈ registry.parameters ∧ existing.handles name = true ∧
          (∀ other ∈ registry.parameters, other.handles name = true → other = existing) ∧
          e = ⟨name, h.name, existing.name⟩) ∧
      (∀ h, (∃ name ∈ h.aliases, registry.Owns name) →
        (∃ e, registry.addParameter h = .error e) ∧ start.callAll (calls ++ [h]) = registry) ∧
      (∀ h, (∀ name ∈ h.aliases, ¬ registry.Owns name) →
        registry.addParameter h = .ok (registry.append [h]) ∧
          start.callAll (calls ++ [h]) = registry.append [h]) ∧
      (∀ label h, registry.parameter? label = some h ↔
        h ∈ registry.parameters ∧ h.handles label = true) ∧
      (∀ other : Registry, other.parameters.Perm registry.parameters →
        ∀ label, other.parameter? label = registry.parameter? label) ∧
      (registry = start.append calls → ∀ others, others.Perm calls →
        start.callAll others = start.append others ∧
          ∀ label, (start.callAll others).parameter? label = registry.parameter? label) := by
  intro registry
  have first : start.AliasesApart := by
    rcases initial with rfl | ⟨settings, players, rfl⟩
    · exact List.Pairwise.nil
    · exact apart_builtin settings players
  have apart : registry.AliasesApart := first.callAll calls
  have snoc (h : ParameterHandler) : start.callAll (calls ++ [h]) = registry.call h :=
    List.foldl_append
  refine ⟨apart, fun _ _ => apart.addParameter_error, ?_, ?_, fun _ _ => apart.parameter?_iff,
    fun _ => apart.parameter?_perm, ?_⟩
  · rintro h ⟨name, own, taken⟩
    exact ⟨addParameter_taken own taken, (snoc h).trans (call_taken own taken)⟩
  · intro h free
    exact ⟨addParameter_free free, (snoc h).trans (call_free free)⟩
  · intro accepted others perm
    have arranged : (start.append others).parameters.Perm registry.parameters := by
      rw [accepted]
      exact perm.append_left _
    have accepted' : start.callAll others = start.append others :=
      callAll_of_apart (apart.perm arranged.symm Apart.symm)
    refine ⟨accepted', ?_⟩
    rw [accepted']
    exact apart.parameter?_perm arranged

section Sample

def labelled (name : String) (aliases : List String) : ParameterHandler :=
  Parameters.plain name aliases (fun _ => true) fun argument =>
    .ok (.oneOf Field.world [argument.value] Field.world_ne)

/-- Beside the built-in parameters an alias is refused in other letters, for its owner. -/
theorem biome_taken :
    let habitat := labelled "habitat" ["h", "Biome"]
    let registry := (Registry.builtin .standard default).callAll [habitat]
    registry.addParameter (labelled "region" ["area", "BIOME", "T"]) =
        .error ⟨"BIOME", "region", "habitat"⟩ ∧
      registry.parameter? "biomE" = some habitat := by
  intro habitat registry
  have initial : Registry.builtin .standard default = .empty ∨
      ∃ settings players, Registry.builtin .standard default = .builtin settings players :=
    .inr ⟨_, _, rfl⟩
  obtain ⟨apart, refused, -, -, found, -⟩ := aliases_stay_apart initial [habitat]
  have free : ∀ name ∈ habitat.aliases, ¬ (Registry.builtin .standard default).Owns name := by
    unfold Owns
    decide +kernel
  have grown : registry = (Registry.builtin .standard default).append [habitat] := call_free free
  have member : habitat ∈ registry.parameters := by
    rw [grown]
    exact List.mem_append_right _ List.mem_cons_self
  refine ⟨(refused _ _).mpr
      ⟨["area"], "BIOME", ["T"], habitat, rfl, ?_, member, by decide, ?_, rfl⟩,
    (found _ _).mpr ⟨member, by decide⟩⟩
  · unfold Owns
    decide +kernel
  · intro other member' handles
    exact unique_of_apart apart member' member handles (by decide)

end Sample
end AuditLog.Search.Registry
