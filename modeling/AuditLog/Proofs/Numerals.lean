import AuditLog.Text.Digits
import AuditLog.Text.Split
import Mathlib.Algebra.Group.Nat.Defs

/-! Written numerals are runs of digits that read back as the number, also after zeros have
been put in front. A run is cut off where a character that is no digit follows. -/
namespace AuditLog.Text

def Digits (cs : List Char) : Prop := ∀ c ∈ cs, isDigit c = true

def EndsDigits (rest : List Char) : Prop := ∀ c tail, rest = c :: tail → isDigit c = false

theorem endsDigits_nil : EndsDigits [] := by
  intro c tail equal
  cases equal

theorem endsDigits_cons {c : Char} (other : isDigit c = false) (tail : List Char) :
    EndsDigits (c :: tail) := by
  intro d rest equal
  cases equal
  exact other

theorem isDigit_eq (c : Char) : isDigit c = c.isDigit := by
  simp only [isDigit, Char.isDigit, Char.le_def, GE.ge]

theorem isDigit_iff (c : Char) : isDigit c = true ↔ 48 ≤ c.toNat ∧ c.toNat ≤ 57 := by
  simp only [isDigit, Bool.and_eq_true, decide_eq_true_eq, Char.le_def, UInt32.le_iff_toNat_le]
  rfl

theorem digit_ne {c d : Char} (digit : isDigit c = true) (other : isDigit d = false) : c ≠ d := by
  rintro rfl
  rw [digit] at other
  cases other

theorem isBlank_digit {c : Char} (digit : isDigit c = true) : isBlank c = false := by
  have range := (isDigit_iff c).mp digit
  simp only [isBlank, Bool.or_eq_false_iff, Bool.and_eq_false_iff, decide_eq_false_iff_not,
    beq_eq_false_iff_ne]
  omega

theorem decimal_digits (n : Nat) : Digits (decimal n) := by
  intro c member
  rw [isDigit_eq]
  exact Nat.isDigit_of_mem_toDigits (by decide) (by decide) member

theorem decimal_ne_nil (n : Nat) : decimal n ≠ [] := Nat.toDigits_ne_nil

theorem decimalValue_decimal (n : Nat) : decimalValue (decimal n) = n :=
  Nat.ofDigitChars_ten_toDigits

theorem decimal_length {n width : Nat} (positive : 0 < width) (small : n < 10 ^ width) :
    (decimal n).length ≤ width := (Nat.length_toDigits_le_iff (by decide) positive).2 small

theorem decimal_head (n : Nat) (positive : 0 < n) : ∀ c tail, decimal n = c :: tail → c ≠ '0' := by
  induction n using Nat.strongRecOn with
  | ind n ih =>
    intro c tail written
    unfold decimal at written ih
    by_cases small : n < 10
    · rw [Nat.toDigits_of_lt_base small] at written
      cases written
      simpa using Nat.pos_iff_ne_zero.mp positive
    · rw [Nat.toDigits_of_base_le (by decide) (by omega)] at written
      obtain ⟨d, ds, shape⟩ := List.exists_cons_of_ne_nil (Nat.toDigits_ne_nil (n := n / 10) (b := 10))
      rw [shape] at written
      cases written
      exact ih (n / 10) (by omega) (by omega) _ _ shape

theorem zeros_digits (n : Nat) : Digits (List.replicate n '0') := by
  intro c member
  rw [List.eq_of_mem_replicate member]
  rfl

theorem no_digits : Digits [] := zeros_digits 0

theorem zero_digits : Digits ['0'] := zeros_digits 1

theorem Digits.sublist {cs ds : List Char} (digits : Digits cs) (inside : ds.Sublist cs) :
    Digits ds := by
  intro c member
  exact digits c (inside.subset member)

theorem Digits.append {cs ds : List Char} (front : Digits cs) (back : Digits ds) :
    Digits (cs ++ ds) := by
  intro c member
  rcases List.mem_append.mp member with h | h
  · exact front c h
  · exact back c h

theorem padded_digits (width n : Nat) : Digits (padded width n) :=
  (zeros_digits _).append (decimal_digits n)

theorem padded_ne_nil (width n : Nat) : padded width n ≠ [] := by
  simp [padded, decimal_ne_nil]

theorem decimalValue_padded (width n : Nat) : decimalValue (padded width n) = n := by
  rw [decimalValue, padded, Nat.ofDigitChars_append, Nat.ofDigitChars_replicate_zero, Nat.mul_zero]
  exact decimalValue_decimal n

theorem padded_length (width n : Nat) (positive : 0 < width) (small : n < 10 ^ width) :
    (padded width n).length = width := by
  have short := decimal_length positive small
  simp only [padded, List.length_append, List.length_replicate]
  omega

theorem takeWhile_digits {run rest : List Char} (digits : Digits run) (ends : EndsDigits rest) :
    (run ++ rest).takeWhile isDigit = run := by
  rw [List.takeWhile_append_of_pos digits]
  cases rest with
  | nil => simp
  | cons c tail => simp [ends c tail rfl]

theorem dropWhile_digits {run rest : List Char} (digits : Digits run) (ends : EndsDigits rest) :
    (run ++ rest).dropWhile isDigit = rest := by
  rw [List.dropWhile_append_of_pos digits]
  cases rest with
  | nil => simp
  | cons c tail => simp [ends c tail rfl]

theorem trimStart_of_head {c : Char} (dark : isBlank c = false) (rest : List Char) :
    trimStart (c :: rest) = c :: rest := by
  simp [trimStart, dark]

theorem trimStart_digits {run : List Char} (digits : Digits run) (present : run ≠ [])
    (rest : List Char) : trimStart (run ++ rest) = run ++ rest := by
  obtain ⟨c, tail, rfl⟩ := List.exists_cons_of_ne_nil present
  exact trimStart_of_head (isBlank_digit (digits c (by simp))) _

end AuditLog.Text
