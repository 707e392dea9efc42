import AuditLog.Proofs.Aliases
import AuditLog.Search.Compile
import Mathlib.Data.List.DropRight
import Mathlib.Data.List.ReduceOption

/-! Providers of selections that come and go. While selections are enabled there is one flag for
them behind the built-in flags, from the first provider after a removal until the next removal, and it
asks that first provider however many follow; otherwise there is none. The built-in flags stay as
they are all the time. -/
namespace AuditLog.Search

/-- The providers installed since the last removal, or since the start. -/
def sinceRemoval (calls : List (Option SelectionProvider)) : List SelectionProvider :=
  (calls.rtakeWhile Option.isSome).reduceOption

/-- The provider that the flag for selections asks after the calls, if there is such a flag. -/
def offered (settings : Settings) (calls : List (Option SelectionProvider)) :
    Option SelectionProvider :=
  if settings.selectionEnabled then (sinceRemoval calls).head? else none

section Calls

variable {settings : Settings} (calls : List (Option SelectionProvider))

theorem offered_removed : offered settings (calls ++ [none]) = none := by
  have fresh : sinceRemoval (calls ++ [none]) = [] := by
    rw [sinceRemoval, List.rtakeWhile_concat_neg _ _ _ (by decide)]
    rfl
  rw [offered, fresh]
  split <;> rfl

theorem offered_disabled (disabled : settings.selectionEnabled = false) :
    offered settings calls = none := by
  rw [offered, disabled]
  rfl

theorem offered_installed (enabled : settings.selectionEnabled = true) (p : SelectionProvider) :
    offered settings (calls ++ [some p]) = (offered settings calls).or (some p) := by
  have further : sinceRemoval (calls ++ [some p]) = sinceRemoval calls ++ [p] := by
    rw [sinceRemoval, List.rtakeWhile_concat_pos _ _ _ rfl, List.reduceOption_append]
    rfl
  rw [offered, offered, if_pos enabled, if_pos enabled, further, List.head?_append]
  rfl

end Calls

namespace Registry

theorem isSelection_selection (p : SelectionProvider) : isSelection (Flags.selection p) = true :=
  beq_self_eq_true Flags.selectionName

theorem eq_selection_of_mem {provider : Option SelectionProvider} {h : FlagHandler}
    (member : h ∈ (provider.map Flags.selection).toList) : ∃ p, h = Flags.selection p := by
  obtain ⟨p, -, rfl⟩ := Option.map_eq_some_iff.mp (Option.mem_toList.mp member)
  exact ⟨p, rfl⟩

/-- The flags for selections can be told apart from the others. -/
theorem filter_selection {flags : List FlagHandler}
    (others : ∀ h ∈ flags, isSelection h = false) (provider : Option SelectionProvider) :
    let all := flags ++ (provider.map Flags.selection).toList
    all.filter isSelection = (provider.map Flags.selection).toList ∧
      all.filter (!isSelection ·) = flags := by
  have last : ∀ h ∈ (provider.map Flags.selection).toList, isSelection h = true := by
    intro h member
    obtain ⟨p, rfl⟩ := eq_selection_of_mem member
    exact isSelection_selection p
  constructor
  · rw [List.filter_append, List.filter_eq_nil_iff.mpr, List.filter_eq_self.mpr last]
    · rfl
    · intro h member
      rw [others h member]
      exact Bool.false_ne_true
  · rw [List.filter_append, List.filter_eq_self.mpr, List.filter_eq_nil_iff.mpr, List.append_nil]
    · intro h member
      rw [last h member]
      exact Bool.false_ne_true
    · intro h member
      rw [others h member]
      rfl

/-- The built-in flags without defaults begin those with defaults. -/
theorem builtinFlags_begin (settings : Settings) :
    builtinFlags settings <+: builtinFlags .standard := by
  unfold builtinFlags
  split
  · exact List.prefix_rfl
  · rw [List.append_nil]
    exact List.prefix_append _ _

theorem names_builtinFlags (settings : Settings) :
    ((builtinFlags settings).map FlagHandler.name).Nodup := by
  have all : ((builtinFlags .standard).map FlagHandler.name).Nodup := by decide
  exact all.sublist ((builtinFlags_begin settings).sublist.map _)

theorem builtinFlags_not_selection {settings : Settings} :
    ∀ h ∈ builtinFlags settings, isSelection h = false := by
  have all : ∀ h ∈ builtinFlags .standard, isSelection h = false := by decide
  intro h member
  exact all h ((builtinFlags_begin settings).subset member)

theorem builtinFlags_apart {settings : Settings} :
    ∀ h ∈ builtinFlags settings, Apart ["we-sel", "sel"] h.aliases := by
  have all : ∀ h ∈ builtinFlags .standard, Apart ["we-sel", "sel"] h.aliases := by decide
  intro h member
  exact all h ((builtinFlags_begin settings).subset member)

end Registry

namespace Compiler

open Registry

/-- A flag for the selections of a provider stands behind the other flags. -/
def offering (compiler : Compiler) (provider : Option SelectionProvider) : Compiler :=
  { compiler with
    registry := { compiler.registry with
      flags := compiler.registry.flags ++ (provider.map Flags.selection).toList } }

section Run

variable {compiler : Compiler}

theorem mem_offering {provider : Option SelectionProvider} {h : FlagHandler}
    (member : h ∈ (compiler.offering provider).registry.flags) :
    h ∈ compiler.registry.flags ∨ ∃ p, h = Flags.selection p :=
  (List.mem_append.mp member).imp id eq_selection_of_mem

theorem setSelection_disabled (disabled : compiler.settings.selectionEnabled = false)
    (p : SelectionProvider) : compiler.setSelection (some p) = compiler := by
  rw [setSelection, disabled]
  rfl

variable (others : ∀ h ∈ compiler.registry.flags, isSelection h = false)
include others

theorem offering_removed (provider : Option SelectionProvider) :
    (compiler.offering provider).setSelection none = compiler.offering none := by
  have kept := (filter_selection others provider).2
  simp only [setSelection, offering, Registry.setSelection, removeFlags, kept, Option.map_none,
    Option.toList_none, List.append_nil]
  rfl

theorem offering_installed (enabled : compiler.settings.selectionEnabled = true)
    (provider : Option SelectionProvider) (p : SelectionProvider) :
    (compiler.offering provider).setSelection (some p) = compiler.offering (provider.or (some p)) := by
  have absent : compiler.registry.flags.any isSelection = false := by
    rw [List.any_eq_false]
    intro h member
    rw [others h member]
    exact Bool.false_ne_true
  cases provider with
  | none =>
    simp [setSelection, offering, enabled, Registry.setSelection, addFlagUnless, addFlag, absent]
  | some q =>
    simp [setSelection, offering, enabled, Registry.setSelection, addFlagUnless,
      isSelection_selection]

/-- After any calls the flag of the provider that is offered stands behind the others. -/
theorem setSelection_run (calls : List (Option SelectionProvider)) :
    calls.foldl setSelection compiler = compiler.offering (offered compiler.settings calls) := by
  -- By the last call, since what it does depends on those before it.
  induction calls using List.reverseRecOn with
  | nil =>
    have start : offered compiler.settings [] = none := by
      unfold offered
      split <;> rfl
    rw [start, offering, Option.map_none, Option.toList_none, List.append_nil]
    rfl
  | append_singleton calls call ih =>
    rw [List.foldl_append, List.foldl_cons, List.foldl_nil, ih]
    cases call with
    | none => rw [offering_removed others, offered_removed]
    | some p =>
      cases enabled : compiler.settings.selectionEnabled with
      | true => rw [offering_installed others enabled, Search.offered_installed calls enabled]
      | false =>
        rw [offered_disabled _ enabled, offered_disabled _ enabled, setSelection_disabled]
        exact enabled

end Run

/-- After any calls the flag for selections is there, once, exactly if selections are enabled and
some provider was installed since the last removal, or since the start; it is that of the first
such provider, and the label of a selection finds it. The other flags are the built-in ones, each
once and in their order. While selections are disabled a provider changes nothing. -/
theorem selections_toggled (settings : Settings) (players : Players)
    (calls : List (Option SelectionProvider)) :
    let compiler := calls.foldl setSelection (builtin settings players)
    compiler.settings = settings ∧
      compiler.registry.parameters = builtinParameters settings players ∧
      compiler.registry.flags.filter (·.name == Flags.selectionName) =
        ((offered settings calls).map Flags.selection).toList ∧
      compiler.registry.flags.filter (·.name != Flags.selectionName) = builtinFlags settings ∧
      ((builtinFlags settings).map FlagHandler.name).Nodup ∧
      (∀ label, answersTo ["we-sel", "sel"] label = true →
        compiler.registry.flag? label = (offered settings calls).map Flags.selection) ∧
      (settings.selectionEnabled = false → ∀ p, compiler.setSelection (some p) = compiler) := by
  intro compiler
  have run : compiler = (builtin settings players).offering (offered settings calls) :=
    setSelection_run builtinFlags_not_selection calls
  obtain ⟨selections, rest⟩ :=
    filter_selection builtinFlags_not_selection (offered settings calls)
  rw [run]
  refine ⟨rfl, rfl, selections, rest, names_builtinFlags settings, ?_, ?_⟩
  · intro label answers
    have passed : (builtinFlags settings).find? (·.handles label) = none := by
      rw [List.find?_eq_none]
      intro h member
      rw [FlagHandler.handles, (builtinFlags_apart h member).answersTo_false answers]
      exact Bool.false_ne_true
    change (builtinFlags settings ++ _).find? (·.handles label) = _
    rw [List.find?_append, passed, Option.none_or]
    cases offered settings calls with
    | none => rfl
    | some p =>
      have handles : (Flags.selection p).handles label = true := answers
      simp [handles]
  · intro disabled p
    exact setSelection_disabled disabled p

/-- The first provider after a removal answers, though another one follows. -/
example (p q r : SelectionProvider) :
    offered .standard [some p, none, some q, some r] = some q := rfl

end Compiler
end AuditLog.Search
