import AuditLog.Proofs.TranslationFailures
import AuditLog.Proofs.ConditionMeaning

/-! What BETWEEN asks of a field. A range is tested directly on a number, or by one test for each of its
ends on whatever the field holds. The two agree whatever the ends are, NaN and reversed ones
included: the field has to be a number, and the number has to lie within the range. -/
namespace AuditLog

namespace Double

variable {x y : Double}

theorem compare?_swap (x y : Double) : (x.compare? y).map Ordering.swap = y.compare? x := by
  rw [compare?, compare?, Bool.or_comm y.isNaN]
  split
  · rfl
  · exact congrArg some Std.OrientedCmp.eq_swap.symm

theorem compare?_reversed (side : Ordering → Prop) :
    (∃ o, y.compare? x = some o ∧ side o) ↔ ∃ o, x.compare? y = some o ∧ side o.swap := by
  rw [← compare?_swap x y]
  cases x.compare? y <;> simp

theorem atMost_iff : x.atMost y = true ↔ ∃ o, x.compare? y = some o ∧ o ≠ .gt := by
  simp only [atMost, Option.any_eq_true, Ordering.isLE_iff_ne_gt]

theorem less_iff : x.less y = true ↔ ∃ o, x.compare? y = some o ∧ o = .lt := by
  simp only [less, beq_iff_eq, exists_eq_right]

theorem atLeast_iff : y.atMost x = true ↔ ∃ o, x.compare? y = some o ∧ o ≠ .lt := by
  rw [atMost_iff, compare?_reversed]
  simp only [ne_eq, Ordering.swap_eq_gt]

theorem greater_iff : y.less x = true ↔ ∃ o, x.compare? y = some o ∧ o = .gt := by
  rw [less_iff, compare?_reversed]
  simp only [Ordering.swap_eq_lt]

end Double

namespace Value

/-- The number as which a value is compared with a double. -/
def number? : Value → Option Double
  | .double x => some x
  | .int i => some (.ofInt i.toInt)
  | _ => none

theorem number?_eq_some {v : Value} {x : Double} :
    v.number? = some x ↔ v = .double x ∨ ∃ i, v = .int i ∧ Double.ofInt i.toInt = x := by
  cases v <;> simp [number?]

theorem compare?_double (v : Value) (bound : Double) :
    v.compare? (.double bound) = v.number?.bind (·.compare? bound) := by
  cases v <;> rfl

end Value

theorem standsOn_double {side : Ordering → Prop} {field : Option Value} {bound : Double} :
    StandsOn side field (.double bound) ↔
      ∃ x, field.bind Value.number? = some x ∧ ∃ o, x.compare? bound = some o ∧ side o := by
  simp only [StandsOn, Value.compare?_double, Option.bind_eq_some_iff]
  constructor
  · rintro ⟨v, o, present, ⟨x, number, order⟩, holds⟩
    exact ⟨x, ⟨v, present, number⟩, o, order, holds⟩
  · rintro ⟨x, ⟨v, present, number⟩, o, order, holds⟩
    exact ⟨v, o, present, ⟨x, number, order⟩, holds⟩

namespace NumberRange

/-- A range is what its two ends have in common. -/
theorem contains_ends (r : NumberRange) (x : Double) :
    r.contains x = (contains ⟨r.lower, .unbounded⟩ x && contains ⟨.unbounded, r.upper⟩ x) := by
  simp only [contains, Bool.and_true, Bool.true_and]

theorem isTwoSided_iff {r : NumberRange} :
    r.isTwoSided = true ↔ r.lower ≠ .unbounded ∧ r.upper ≠ .unbounded := by
  simp [isTwoSided]

end NumberRange

namespace Bound

open NumberRange

variable {field : Option Value} {bound : Bound}

/-- The field is compared with the end, where the range compares the end with the number. -/
theorem holdsBelow_iff (closed : bound ≠ .unbounded) : bound.HoldsBelow field ↔
    ∃ x, field.bind Value.number? = some x ∧ contains ⟨bound, .unbounded⟩ x = true := by
  cases bound with
  | unbounded => exact absurd rfl closed
  | inclusive l =>
    simp only [HoldsBelow, standsOn_double, contains, Bool.and_true, Double.atLeast_iff]
  | exclusive l =>
    simp only [HoldsBelow, standsOn_double, contains, Bool.and_true, Double.greater_iff]

theorem holdsAbove_iff (closed : bound ≠ .unbounded) : bound.HoldsAbove field ↔
    ∃ x, field.bind Value.number? = some x ∧ contains ⟨.unbounded, bound⟩ x = true := by
  cases bound with
  | unbounded => exact absurd rfl closed
  | inclusive u =>
    simp only [HoldsAbove, standsOn_double, contains, Bool.true_and, Double.atMost_iff]
  | exclusive u =>
    simp only [HoldsAbove, standsOn_double, contains, Bool.true_and, Double.less_iff]

end Bound

namespace Leaf

theorem make_between_iff {field : Path} {r : NumberRange} :
    (∃ leaf, make field .between (.range r) = .ok leaf) ↔
      field.segments ≠ [] ∧ r.isTwoSided = true := by
  constructor
  · rintro ⟨leaf, made⟩
    obtain ⟨rfl, rule, operand⟩ := make_ok made
    have fits := leaf.fits
    rw [rule, operand] at fits
    exact ⟨leaf.field_ne, fits⟩
  · rintro ⟨present, bounded⟩
    let leaf : Leaf := ⟨field, .between, .range r, present, bounded⟩
    exact ⟨leaf, leaf.make_self⟩

/-- A checked BETWEEN leaf asks for a number within its range. -/
theorem holds_between_iff {leaf : Leaf} {r : NumberRange} (rule : leaf.rule = .between)
    (operand : leaf.operand = .range r) (field : Option Value) :
    leaf.Holds field ↔ ∃ x, field.bind Value.number? = some x ∧ r.contains x = true := by
  have fits := leaf.fits
  rw [rule, operand] at fits
  obtain ⟨lower, upper⟩ := NumberRange.isTwoSided_iff.mp fits
  rw [Leaf.Holds, rule, operand]
  change r.lower.HoldsBelow field ∧ r.upper.HoldsAbove field ↔ _
  rw [Bound.holdsBelow_iff lower, Bound.holdsAbove_iff upper]
  simp only [r.contains_ends, Bool.and_eq_true]
  constructor
  · rintro ⟨⟨x, number, above⟩, y, same, below⟩
    cases number.symm.trans same
    exact ⟨x, number, above, below⟩
  · rintro ⟨x, number, above, below⟩
    exact ⟨⟨x, number, above⟩, x, number, below⟩

end Leaf

namespace Filter

/-- A BETWEEN condition can be made of a field and a range with two ends, and of no other; it then has a
filter, which admits the documents whose field is a number within the range, an integer as the
double that it is rounded to, and no others. -/
theorem between_admits_iff (field : Path) (r : NumberRange) :
    ((∃ leaf, Leaf.make field .between (.range r) = .ok leaf) ↔
        field.segments ≠ [] ∧ r.isTwoSided = true) ∧
      ∀ leaf, Leaf.make field .between (.range r) = .ok leaf →
        ∃ f, ofConditions [.leaf leaf] = .ok f ∧ ∀ d, f.admits d = true ↔
          (∃ x, Document.get? d field = some (.double x) ∧ r.contains x = true) ∨
          ∃ i, Document.get? d field = some (.int i) ∧ r.contains (.ofInt i.toInt) = true := by
  refine ⟨Leaf.make_between_iff, ?_⟩
  intro leaf made
  obtain ⟨rfl, rule, operand⟩ := Leaf.make_ok made
  cases translated : ofConditions [.leaf leaf] with
  | error e =>
    have failure := failure?_eq_some.mpr translated
    rw [ofConditions, failure?_conjunction] at failure
    simp [Condition.leavesOf, Condition.leaves, leafFailure?, unsupported?, Leaf.unstorable,
      operand] at failure
  | ok f =>
    refine ⟨f, rfl, ?_⟩
    intro d
    rw [conjunction_holds d _ everything f translated]
    simp only [Condition.AllHold, Condition.Holds, admits_everything, true_and, and_true]
    rw [Leaf.holds_between_iff rule operand]
    simp only [Option.bind_eq_some_iff, Value.number?_eq_some]
    constructor
    · rintro ⟨x, ⟨v, found, rfl | ⟨i, rfl, rfl⟩⟩, inside⟩
      · exact .inl ⟨x, found, inside⟩
      · exact .inr ⟨i, found, inside⟩
    · rintro (⟨x, found, inside⟩ | ⟨i, found, inside⟩)
      · exact ⟨x, ⟨_, found, .inl rfl⟩, inside⟩
      · exact ⟨_, ⟨_, found, .inr ⟨i, rfl, rfl⟩⟩, inside⟩

/-- From zero, which the negative zero is as well, up to ten, which is left out. -/
def halfOpen : NumberRange := ⟨.inclusive (.zero true), .exclusive ⟨0x4024000000000000⟩⟩

theorem half_open_ends :
    ∃ leaf f, Leaf.make Field.x .between (.range halfOpen) = .ok leaf ∧
      ofConditions [.leaf leaf] = .ok f ∧
      f.admits [("location", .document [("x", .int 0)])] = true ∧
      f.admits [("location", .document [("x", .double ⟨0x4024000000000000⟩)])] = false ∧
      f.admits [("location", .text "0")] = false := by
  obtain ⟨made, meaning⟩ := between_admits_iff Field.x halfOpen
  obtain ⟨leaf, checked⟩ := made.mpr ⟨Field.x_ne, rfl⟩
  obtain ⟨f, translated, admits⟩ := meaning leaf checked
  refine ⟨leaf, f, checked, translated, ?_, ?_, ?_⟩
  · exact (admits _).mpr (.inr ⟨0, rfl, by decide⟩)
  · rw [← Bool.not_eq_true, admits]
    rintro (⟨x, found, inside⟩ | ⟨i, found, inside⟩)
    · cases found
      cases inside
    · cases found
  · rw [← Bool.not_eq_true, admits]
    rintro (⟨x, found, inside⟩ | ⟨i, found, inside⟩) <;> cases found

end Filter
end AuditLog
