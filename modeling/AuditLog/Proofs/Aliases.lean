import AuditLog.Search.Handler
import Mathlib.Data.List.Pairwise

/-! Which handlers a label belongs to. Labels are compared with aliases without regard to letter
case, so where handlers share no alias in any letter case no label belongs to two of them. -/
namespace AuditLog.Search

theorem sameLetters_iff {a b : String} :
    Text.sameLetters a b = true ↔ Text.lower a = Text.lower b := beq_iff_eq

theorem answersTo_iff {aliases : List String} {label : String} :
    answersTo aliases label = true ↔ ∃ name ∈ aliases, Text.lower label = Text.lower name := by
  simp only [answersTo, List.any_eq_true, sameLetters_iff]

theorem answersTo_congr {label other : String} (same : Text.lower label = Text.lower other)
    (aliases : List String) : answersTo aliases label = answersTo aliases other := by
  have letters : Text.sameLetters label = Text.sameLetters other := by
    funext name
    rw [Text.sameLetters, Text.sameLetters, same]
  rw [answersTo, answersTo, letters]

namespace Registry

def Apart (aliases others : List String) : Prop :=
  ∀ name ∈ aliases, ∀ other ∈ others, Text.lower name ≠ Text.lower other

instance (aliases others : List String) : Decidable (Apart aliases others) :=
  inferInstanceAs (Decidable (∀ name ∈ aliases, ∀ other ∈ others, _))

theorem Apart.symm {aliases others : List String} (apart : Apart aliases others) :
    Apart others aliases := by
  intro name own other taken
  exact (apart other taken name own).symm

theorem Apart.answersTo_false {aliases others : List String} (apart : Apart aliases others)
    {label : String} (answers : answersTo aliases label = true) :
    answersTo others label = false := by
  rw [← Bool.not_eq_true]
  intro both
  obtain ⟨name, own, same⟩ := answersTo_iff.mp answers
  obtain ⟨name', own', same'⟩ := answersTo_iff.mp both
  exact apart name own name' own' (same.symm.trans same')

/-- Where no two parameters share an alias, a label belongs to one of them. -/
theorem unique_of_apart {parameters : List ParameterHandler}
    (apart : parameters.Pairwise fun h other => Apart h.aliases other.aliases)
    {h other : ParameterHandler} (member : h ∈ parameters) (member' : other ∈ parameters)
    {label : String} (handles : h.handles label = true) (handles' : other.handles label = true) :
    h = other := by
  have symmetric : Std.Symm fun a b : ParameterHandler => Apart a.aliases b.aliases :=
    ⟨fun _ _ => Apart.symm⟩
  by_contra different
  obtain ⟨name, own, same⟩ := answersTo_iff.mp handles
  obtain ⟨name', own', same'⟩ := answersTo_iff.mp handles'
  exact apart.forall member member' different name own name' own' (same.symm.trans same')

end Registry
end AuditLog.Search
