import AuditLog.Proofs.Numerals
import AuditLog.Time.Span

/-! Which texts are read as a span of time, and as how many seconds. A text is read exactly if it is made
of parts and nothing else, and the exact sum of the parts is positive and within bounds. Amounts,
products and sums on the way are checked against the word; since none of them is larger than
the sum of all, these checks refuse no text that the bound on the sum lets through. -/
namespace AuditLog.Span

inductive Measure where
  | second
  | minute
  | hour
  | day
  | week

namespace Measure

def letter : Measure → Char
  | second => 's'
  | minute => 'm'
  | hour => 'h'
  | day => 'd'
  | week => 'w'

def seconds : Measure → Nat
  | second => 1
  | minute => 60
  | hour => 60 * 60
  | day => 24 * (60 * 60)
  | week => 7 * (24 * (60 * 60))

def capital : Measure → Char
  | second => 'S'
  | minute => 'M'
  | hour => 'H'
  | day => 'D'
  | week => 'W'

def Named (m : Measure) (c : Char) : Prop := c = m.letter ∨ c = m.capital

theorem seconds_pos (m : Measure) : 0 < m.seconds := by
  cases m <;> decide

/-- Only capital letters change in lower case. -/
theorem toLower_cases (c : Char) : c.toLower = c ∨ c.toLower.toNat = c.toNat + 32 := by
  by_cases upper : 'A'.val ≤ c.val ∧ c.val ≤ 'Z'.val
  · right
    have lower : c.toLower.val = c.val + 32 := congrArg Char.val (dif_pos upper)
    have last : c.val.toNat ≤ 90 := upper.2
    rw [Char.toNat, lower, UInt32.toNat_add]
    exact Nat.mod_eq_of_lt (by change c.val.toNat + 32 < 2 ^ 32; omega)
  · exact .inl (dif_neg upper)

theorem named_iff {m : Measure} {c : Char} : m.Named c ↔ c.toLower = m.letter := by
  constructor
  · rintro (rfl | rfl) <;> cases m <;> rfl
  · intro lower
    rcases toLower_cases c with same | later
    · exact .inl (same ▸ lower)
    · right
      have apart : m.letter.toNat = m.capital.toNat + 32 := by cases m <;> rfl
      rw [lower, apart] at later
      exact Char.toNat_inj.mp (by omega)

theorem Named.isDigit_eq_false {m : Measure} {c : Char} (named : m.Named c) :
    Text.isDigit c = false := by
  rcases named with rfl | rfl <;> cases m <;> rfl

end Measure

/-- One or more digits and the letter of a unit. -/
structure Part where
  digits : List Char
  letter : Char
  measure : Measure
  numeral : Text.Digits digits
  present : digits ≠ []
  named : measure.Named letter

namespace Part

def text (p : Part) : List Char := p.digits ++ [p.letter]

def seconds (p : Part) : Nat := Text.decimalValue p.digits * p.measure.seconds

end Part

/-- The text of some parts, with nothing before, between or after them. -/
def written (parts : List Part) : List Char := parts.flatMap Part.text

/-- The exact sum of the parts. -/
def lasting : List Part → Nat
  | [] => 0
  | p :: parts => p.seconds + lasting parts

theorem written_cons (p : Part) (parts : List Part) :
    written (p :: parts) = p.digits ++ p.letter :: written parts := by
  rw [written, List.flatMap_cons, Part.text, List.append_assoc]
  rfl

theorem unitSeconds?_eq_some {c : Char} {n : Nat} :
    unitSeconds? c = some n ↔ ∃ m : Measure, m.Named c ∧ m.seconds = n := by
  constructor
  · intro known
    unfold unitSeconds? at known
    split at known
    next lower => exact ⟨.second, Measure.named_iff.mpr lower, Option.some.inj known⟩
    next lower => exact ⟨.minute, Measure.named_iff.mpr lower, Option.some.inj known⟩
    next lower => exact ⟨.hour, Measure.named_iff.mpr lower, Option.some.inj known⟩
    next lower => exact ⟨.day, Measure.named_iff.mpr lower, Option.some.inj known⟩
    next lower => exact ⟨.week, Measure.named_iff.mpr lower, Option.some.inj known⟩
    next => cases known
  · rintro ⟨m, named, rfl⟩
    rw [unitSeconds?, Measure.named_iff.mp named]
    cases m <;> rfl

theorem word?_eq_some {n k : Nat} : word? n = some k ↔ n ≤ 0x7FFFFFFFFFFFFFFF ∧ n = k := by
  rw [word?, Option.ite_none_right_eq_some, Option.some.injEq]

theorem natOfDigits?_eq_some {cs : List Char} {n : Nat} :
    Text.natOfDigits? cs = some n ↔ cs ≠ [] ∧ Text.Digits cs ∧ Text.decimalValue cs = n := by
  rw [Text.natOfDigits?, Option.ite_none_right_eq_some, Option.some.injEq]
  simp [Text.Digits, and_assoc]

/-- The seconds of a part are read exactly if the word holds them; the amount alone is not larger. -/
theorem partSeconds?_eq_some {digits : List Char} {letter : Char} {n : Nat} :
    partSeconds? digits letter = some n ↔
      ∃ p : Part, p.digits = digits ∧ p.letter = letter ∧ p.seconds = n ∧
        n ≤ 0x7FFFFFFFFFFFFFFF := by
  constructor
  · intro read
    obtain ⟨unit, known, read⟩ := Option.bind_eq_some_iff.mp read
    obtain ⟨amount, numeral, fits⟩ := Option.bind_eq_some_iff.mp read
    obtain ⟨m, named, rfl⟩ := unitSeconds?_eq_some.mp known
    obtain ⟨value, digital, small⟩ := Option.bind_eq_some_iff.mp numeral
    obtain ⟨present, run, rfl⟩ := natOfDigits?_eq_some.mp digital
    obtain ⟨-, rfl⟩ := word?_eq_some.mp small
    obtain ⟨bound, rfl⟩ := word?_eq_some.mp fits
    exact ⟨⟨digits, letter, m, run, present, named⟩, rfl, rfl, rfl, bound⟩
  · rintro ⟨p, rfl, rfl, rfl, bound⟩
    have known : unitSeconds? p.letter = some p.measure.seconds :=
      unitSeconds?_eq_some.mpr ⟨p.measure, p.named, rfl⟩
    have numeral : Text.natOfDigits? p.digits = some (Text.decimalValue p.digits) :=
      natOfDigits?_eq_some.mpr ⟨p.present, p.numeral, rfl⟩
    have smaller : Text.decimalValue p.digits ≤ p.seconds :=
      Nat.le_mul_of_pos_right _ p.measure.seconds_pos
    have amount : word? (Text.decimalValue p.digits) = some (Text.decimalValue p.digits) :=
      word?_eq_some.mpr ⟨Nat.le_trans smaller bound, rfl⟩
    rw [partSeconds?, known, numeral, Option.bind_some, amount]
    exact word?_eq_some.mpr ⟨bound, rfl⟩

theorem total?_digits {run : List Char} (digits : Text.Digits run) (total : Nat)
    (before rest : List Char) :
    total? total before (run ++ rest) = total? total (run.reverse ++ before) rest := by
  induction run generalizing before with
  | nil => rfl
  | cons c run ih =>
    obtain ⟨here, later⟩ := List.forall_mem_cons.mp digits
    rw [List.cons_append, total?, if_pos here, ih later, List.reverse_cons, List.append_assoc]
    rfl

/-- What is read is the sum of parts that make up the text. -/
theorem total?_sound {cs digits : List Char} {total n : Nat} (run : Text.Digits digits)
    (read : total? total digits cs = some n) :
    ∃ parts, digits.reverse ++ cs = written parts ∧ n = total + lasting parts := by
  induction cs generalizing total digits with
  | nil =>
    obtain ⟨empty, same⟩ := Option.ite_none_right_eq_some.mp read
    rw [List.isEmpty_iff.mp empty]
    exact ⟨[], rfl, (Option.some.inj same).symm⟩
  | cons c rest ih =>
    rw [total?] at read
    split at read
    next digit =>
      obtain ⟨parts, text, sum⟩ := ih (List.forall_mem_cons.mpr ⟨digit, run⟩) read
      rw [List.reverse_cons, List.append_assoc] at text
      exact ⟨parts, text, sum⟩
    next =>
      obtain ⟨seconds, here, read⟩ := Option.bind_eq_some_iff.mp read
      obtain ⟨sum, fits, read⟩ := Option.bind_eq_some_iff.mp read
      obtain ⟨p, digits_eq, letter_eq, rfl, -⟩ := partSeconds?_eq_some.mp here
      obtain ⟨-, rfl⟩ := word?_eq_some.mp fits
      obtain ⟨parts, text, rfl⟩ := ih Text.no_digits read
      refine ⟨p :: parts, ?_, ?_⟩
      · rw [written_cons, digits_eq, letter_eq, ← text]
        rfl
      · rw [lasting, Nat.add_assoc]

/-- Parts are read as their sum, unless it is too large for the word. -/
theorem total?_written {parts : List Part} {total : Nat}
    (fits : total + lasting parts ≤ 0x7FFFFFFFFFFFFFFF) :
    total? total [] (written parts) = some (total + lasting parts) := by
  induction parts generalizing total with
  | nil => rfl
  | cons p parts ih =>
    rw [lasting, ← Nat.add_assoc] at fits ⊢
    have here : partSeconds? p.digits p.letter = some p.seconds :=
      partSeconds?_eq_some.mpr ⟨p, rfl, rfl, rfl, by omega⟩
    have sum : word? (total + p.seconds) = some (total + p.seconds) :=
      word?_eq_some.mpr ⟨by omega, rfl⟩
    have stop : ¬ Text.isDigit p.letter = true := by
      rw [p.named.isDigit_eq_false]
      exact Bool.false_ne_true
    rw [written_cons, total?_digits p.numeral, total?, if_neg stop, List.append_nil,
      List.reverse_reverse, here]
    change (word? (total + p.seconds)).bind (total? · [] (written parts)) = _
    rw [sum]
    exact ih fits

/-- A text is read as a number of seconds exactly if it is a row of parts, the seconds are their exact
sum, and the sum is at least one second and at most as many as a signed word of milliseconds holds. -/
theorem parse?_exact (s : String) (n : Nat) :
    parse? s = some n ↔
      ∃ parts : List Part, parts ≠ [] ∧ s.toList = written parts ∧ lasting parts = n ∧
        1 ≤ n ∧ n ≤ (2 ^ 63 - 1) / 1000 := by
  rw [parse?, Option.filter_eq_some_iff]
  simp only [Bool.and_eq_true, decide_eq_true_eq]
  constructor
  · rintro ⟨read, positive, bound⟩
    obtain ⟨parts, text, rfl⟩ := total?_sound Text.no_digits read
    rw [Nat.zero_add] at positive bound ⊢
    refine ⟨parts, ?_, text, rfl, positive, bound⟩
    rintro rfl
    cases positive
  · rintro ⟨parts, -, text, rfl, positive, bound⟩
    have fits : 0 + lasting parts ≤ 0x7FFFFFFFFFFFFFFF := by omega
    have read := total?_written fits
    rw [Nat.zero_add] at read
    exact ⟨text ▸ read, positive, bound⟩

end AuditLog.Span
