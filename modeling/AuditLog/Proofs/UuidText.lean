import AuditLog.Proofs.DisplayText
import AuditLog.Uuid

/-! The text of an identifier is read back as that identifier: it has 32 hexadecimal digits, and
its hyphens stand between the groups. -/
namespace AuditLog

namespace Text

theorem minus_notMem_hexDigits (n : Nat) : '-' ∉ hexDigits n := by
  have plain : ∀ n < 16, Nat.digitChar n ≠ '-' := by decide
  induction n using Nat.strongRecOn with
  | ind n ih =>
    by_cases small : n < 16
    · rw [hexDigits_small small, List.mem_singleton]
      exact (plain n small).symm
    · rw [hexDigits_large (by omega), List.mem_append, List.mem_singleton, not_or]
      exact ⟨ih (n / 16) (by omega), (plain _ (by omega)).symm⟩

theorem length_paddedHex {width n : Nat} (wide : 0 < width) (fits : n < 16 ^ width) :
    (paddedHex width n).length = width := by
  have short : (hexDigits n).length ≤ width :=
    (Nat.length_toDigits_le_iff (by decide) wide).mpr fits
  rw [paddedHex, List.length_append, List.length_replicate]
  omega

theorem minus_notMem_paddedHex (width n : Nat) : '-' ∉ paddedHex width n := by
  rw [paddedHex, List.mem_append, not_or]
  refine ⟨?_, minus_notMem_hexDigits n⟩
  intro zero
  exact absurd (List.eq_of_mem_replicate zero) (by decide)

/-- Zeros in front do not change the number. -/
theorem natOfHex?_paddedHex (width n : Nat) : natOfHex? (paddedHex width n) = some n := by
  have number := natOfHex?_hexDigits n
  rw [paddedHex]
  induction width - (hexDigits n).length with
  | zero => exact number
  | succ zeros ih =>
    rw [List.replicate_succ, List.cons_append]
    -- the first step of the fold goes from zero to zero
    cases digits : List.replicate zeros '0' ++ hexDigits n with
    | nil => exact absurd (List.append_eq_nil_iff.mp digits).2 Nat.toDigits_ne_nil
    | cons c rest =>
      rw [digits] at ih
      exact ih

end Text

namespace Uuid

theorem length_hyphenated {digits : List Char} (all : digits.length = 32) :
    (hyphenated digits).length = 36 := by
  simp only [hyphenated, List.length_append, List.length_cons, List.length_take, List.length_drop]
  omega

theorem filter_hyphenated {digits : List Char} (plain : '-' ∉ digits) :
    (hyphenated digits).filter (· != '-') = digits := by
  have kept (piece : List Char) (within : piece ⊆ digits) : piece.filter (· != '-') = piece := by
    apply List.filter_eq_self.mpr
    intro c member
    rw [bne_iff_ne]
    rintro rfl
    exact plain (within member)
  have inner (n : Nat) : (digits.drop n).take 4 ⊆ digits :=
    List.Subset.trans (List.take_subset _ _) (List.drop_subset _ _)
  have next (n : Nat) : (digits.drop n).take 4 ++ digits.drop (n + 4) = digits.drop n := by
    rw [← List.drop_drop]
    exact List.take_append_drop 4 _
  simp only [hyphenated, List.filter_append, List.filter_cons, bne_self_eq_false,
    Bool.false_eq_true, if_false, kept _ (inner _), kept _ (List.take_subset _ _),
    kept _ (List.drop_subset _ _), List.append_assoc, next, List.take_append_drop]

/-- An identifier is read from its text. -/
theorem parse?_text (id : Uuid) : parse? id.text = some id := by
  have fits : id.bits.toNat < 16 ^ 32 := id.bits.isLt
  have all := Text.length_paddedHex (by decide) fits
  have groups := length_hyphenated all
  have number : ofGroups? (hyphenated (Text.paddedHex 32 id.bits.toNat)) = some id := by
    rw [ofGroups?, filter_hyphenated (Text.minus_notMem_paddedHex 32 _)]
    simp [ofDigits?, all, Text.natOfHex?_paddedHex]
  rw [text, parse?, String.toList_ofList]
  simp only [groups, number]
  rfl

end Uuid
end AuditLog
