import AuditLog.Proofs.StoredText
import AuditLog.Proofs.ValueOrder

/-! Equal values that are not identical. Numerical equality of doubles equates the two zeros and
nothing else that differs, and the equality of values equates no more than their doubles do. -/
namespace AuditLog

namespace Double

theorem eq_of_same {x y : Double} (equal : x.same y = true) (nonzero : x.isZero = false) : x = y := by
  obtain ⟨-, -, ranks⟩ := same_rank.mp equal
  have small := x.bits.toNat_lt
  have small' := y.bits.toNat_lt
  simp only [isZero, beq_eq_false_iff_ne] at nonzero
  have bits : x.bits.toNat = y.bits.toNat := by
    simp only [rank, negative, magnitude, decide_eq_true_eq] at ranks nonzero
    split at ranks <;> split at ranks <;> omega
  cases x
  cases y
  exact congrArg Double.mk (UInt64.toNat_inj.mp bits)

end Double

namespace Value

mutual
theorem eq_of_same (v w : Value) (equal : v.same w = true)
    (nonzero : ∀ x ∈ v.doubles, x.isZero = false) : v = w := by
  cases v with
  | double x =>
    cases w with
    | double y => rw [Double.eq_of_same equal (nonzero x List.mem_cons_self)]
    | _ => cases equal
  | array items =>
    cases w with
    | array others => exact congrArg array (eq_of_sameItems items others equal nonzero)
    | _ => cases equal
  | document fields =>
    cases w with
    | document others => exact congrArg document (eq_of_sameFields fields others equal nonzero)
    | _ => cases equal
  | null =>
    cases w with
    | null => rfl
    | _ => cases equal
  | bool _ =>
    cases w with
    | bool _ => exact congrArg bool (beq_iff_eq.mp equal)
    | _ => cases equal
  | int _ =>
    cases w with
    | int _ => exact congrArg int (beq_iff_eq.mp equal)
    | _ => cases equal
  | text _ =>
    cases w with
    | text _ => exact congrArg text (beq_iff_eq.mp equal)
    | _ => cases equal
  | instant _ =>
    cases w with
    | instant _ => exact congrArg instant (beq_iff_eq.mp equal)
    | _ => cases equal
termination_by structural v
theorem eq_of_sameItems (items others : List Value) (equal : sameItems items others = true)
    (nonzero : ∀ x ∈ itemDoubles items, x.isZero = false) : items = others := by
  cases items with
  | nil =>
    cases others with
    | nil => rfl
    | cons w others => cases equal
  | cons v items =>
    cases others with
    | nil => cases equal
    | cons w others =>
      rw [sameItems, Bool.and_eq_true] at equal
      rw [itemDoubles, List.forall_mem_append] at nonzero
      rw [eq_of_same v w equal.1 nonzero.1, eq_of_sameItems items others equal.2 nonzero.2]
termination_by structural items
theorem eq_of_sameFields (fields others : List (String × Value))
    (equal : sameFields fields others = true)
    (nonzero : ∀ x ∈ fieldDoubles fields, x.isZero = false) : fields = others := by
  cases fields with
  | nil =>
    cases others with
    | nil => rfl
    | cons other others => cases equal
  | cons field fields =>
    cases others with
    | nil => cases equal
    | cons other others =>
      obtain ⟨name, v⟩ := field
      obtain ⟨name', w⟩ := other
      rw [sameFields, Bool.and_eq_true, Bool.and_eq_true, beq_iff_eq] at equal
      obtain ⟨⟨rfl, value⟩, rest⟩ := equal
      rw [fieldDoubles, List.forall_mem_append] at nonzero
      rw [eq_of_same v w value nonzero.1, eq_of_sameFields fields others rest nonzero.2]
termination_by structural fields
end

end Value
end AuditLog
