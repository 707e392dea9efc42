import AuditLog.Number.Shortest
import AuditLog.Proofs.Numerals
import Mathlib.Algebra.Order.Field.Power
import Mathlib.Algebra.Order.Ring.Rat
import Mathlib.Tactic.Linarith
import Mathlib.Tactic.Ring

/-! The shortest decimal of a finite double exists: the grid of seventeen digits always has a
point that reads back. Its digits are at most seventeen, begin with no zero, and stand for a
number between the ends of the interval of numbers that round to the double. -/
namespace AuditLog.Double
open Text

theorem significand_lt (x : Double) : x.significand < 2 ^ 53 := by
  simp only [significand]
  have fraction := Nat.mod_lt x.magnitude (by decide : 0 < 2 ^ 52)
  split <;> omega

theorem significand_pos {x : Double} (nonzero : x.isZero = false) : 0 < x.significand := by
  simp only [isZero, beq_eq_false_iff_ne] at nonzero
  simp only [significand]
  split
  next small =>
    have := Nat.mod_add_div x.magnitude (2 ^ 52)
    omega
  next => omega

def size (x : Double) : ℚ := x.significand * 2 ^ x.exponent

theorem natural_power {b : ℚ} (nonzero : b ≠ 0) (e : Int) :
    b ^ e.toNat = b ^ e * b ^ (-e).toNat := by
  rw [← zpow_natCast, ← zpow_natCast, ← zpow_add₀ nonzero]
  congr 1
  omega

theorem commonScale_spec (p q : Int) : ∃ c : ℚ, 0 < c ∧
    ((commonScale p q).1 : ℚ) = 10 ^ p * c ∧ ((commonScale p q).2 : ℚ) = 2 ^ q * c := by
  refine ⟨10 ^ (-p).toNat * 2 ^ (-q).toNat, by positivity, ?_, ?_⟩
  · simp only [commonScale, Nat.pow_eq]
    push_cast
    rw [natural_power (by norm_num) p]
    ring
  · simp only [commonScale, Nat.pow_eq]
    push_cast
    rw [natural_power (by norm_num) q]
    ring

theorem leadingExponent_spec {num den : Nat} (numerator : 0 < num) (denominator : 0 < den) :
    (10 : ℚ) ^ leadingExponent num den ≤ num / den ∧
      (num / den : ℚ) < 10 ^ (leadingExponent num den + 1) := by
  have length (n : Nat) (positive : 0 < n) : ∃ k, (decimal n).length = k + 1 ∧ 10 ^ k ≤ n ∧
      n < 10 ^ (k + 1) := by
    obtain ⟨k, shape⟩ := Nat.exists_eq_succ_of_ne_zero
      (Nat.ne_of_gt (List.length_pos_iff.mpr (decimal_ne_nil n)))
    have upper := (Nat.length_toDigits_le_iff (b := 10) (n := n) (k := k + 1) (by decide)
      (by omega)).mp (Nat.le_of_eq shape)
    refine ⟨k, shape, ?_, upper⟩
    rcases Nat.eq_zero_or_pos k with rfl | more
    · exact Nat.succ_le_of_lt positive
    · have long := mt (Nat.length_toDigits_le_iff (b := 10) (n := n) (by decide) more).mpr
      exact Nat.le_of_not_lt (long (by change ¬ (decimal n).length ≤ k; omega))
  have below : (0 : ℚ) < den := by exact_mod_cast denominator
  have above : (0 : ℚ) < num := by exact_mod_cast numerator
  unfold leadingExponent
  split
  next large =>
    obtain ⟨k, shape, lower, upper⟩ := length (num / den) (Nat.div_pos large denominator)
    rw [shape]
    have lower' : 10 ^ k * den ≤ num := (Nat.le_div_iff_mul_le denominator).mp lower
    have upper' : num < 10 ^ (k + 1) * den := (Nat.div_lt_iff_lt_mul denominator).mp upper
    have cancel : ((k + 1 : Nat) : Int) - 1 = k := by omega
    rw [cancel, le_div_iff₀ below, div_lt_iff₀ below]
    exact ⟨by exact_mod_cast lower', by exact_mod_cast upper'⟩
  next small =>
    obtain ⟨k, shape, lower, upper⟩ := length ((den - 1) / num)
      (Nat.div_pos (by omega) numerator)
    rw [shape]
    have lower' : 10 ^ k * num < den := by
      have := (Nat.le_div_iff_mul_le numerator).mp lower
      omega
    have upper' : den ≤ 10 ^ (k + 1) * num := by
      have := (Nat.div_lt_iff_lt_mul numerator).mp upper
      omega
    have cancel : -((k + 1 : Nat) : Int) + 1 = -(k : Int) := by omega
    rw [cancel, zpow_neg, zpow_neg, zpow_natCast, zpow_natCast, le_div_iff₀ below,
      div_lt_iff₀ below, inv_mul_le_iff₀ (by positivity), lt_inv_mul_iff₀ (by positivity)]
    exact ⟨by exact_mod_cast upper', by exact_mod_cast lower'⟩

def leading (x : Double) : Int :=
  leadingExponent (x.significand * 2 ^ x.exponent.toNat) (2 ^ (-x.exponent).toNat)

theorem leading_spec {x : Double} (nonzero : x.isZero = false) :
    (10 : ℚ) ^ x.leading ≤ x.size ∧ x.size < 10 ^ (x.leading + 1) := by
  have positive := significand_pos nonzero
  have ratio : x.size = (x.significand * 2 ^ x.exponent.toNat : Nat) /
      ((2 ^ (-x.exponent).toNat : Nat) : ℚ) := by
    unfold size
    push_cast
    rw [eq_div_iff (by positivity), mul_assoc, ← natural_power (by norm_num)]
  rw [ratio]
  exact leadingExponent_spec (by positivity) (by positivity)

/-- The last point of the grid of `10 ^ p` that is not beyond the double. -/
def below (x : Double) (p : Int) : Nat :=
  4 * x.significand * (commonScale p (x.exponent - 2)).2 / (commonScale p (x.exponent - 2)).1

theorem commonScale_pos (p q : Int) : 0 < (commonScale p q).1 ∧ 0 < (commonScale p q).2 := by
  simp only [commonScale, Nat.pow_eq]
  constructor <;> positivity

theorem quarter (x : Double) : 4 * (x.significand : ℚ) * 2 ^ (x.exponent - 2) = x.size := by
  unfold size
  rw [zpow_sub₀ (by norm_num)]
  norm_num
  ring

theorem below_scaled (x : Double) (p : Int) :
    x.below p * (commonScale p (x.exponent - 2)).1 ≤
        4 * x.significand * (commonScale p (x.exponent - 2)).2 ∧
      4 * x.significand * (commonScale p (x.exponent - 2)).2 <
        (x.below p + 1) * (commonScale p (x.exponent - 2)).1 := by
  constructor
  · exact Nat.div_mul_le_self _ _
  · rw [Nat.mul_comm (x.below p + 1)]
    exact Nat.lt_mul_div_succ _ (commonScale_pos p (x.exponent - 2)).1

theorem below_spec (x : Double) (p : Int) :
    (x.below p : ℚ) * 10 ^ p ≤ x.size ∧ x.size < (x.below p + 1) * 10 ^ p := by
  obtain ⟨c, positive, tenths, halves⟩ := commonScale_spec p (x.exponent - 2)
  obtain ⟨lower, upper⟩ := below_scaled x p
  have lower' : (x.below p : ℚ) * (10 ^ p * c) ≤ 4 * x.significand * (2 ^ (x.exponent - 2) * c) := by
    rw [← tenths, ← halves]
    exact_mod_cast lower
  have upper' : 4 * x.significand * (2 ^ (x.exponent - 2) * c) <
      ((x.below p : ℚ) + 1) * (10 ^ p * c) := by
    rw [← tenths, ← halves]
    exact_mod_cast upper
  rw [← mul_assoc, ← mul_assoc, quarter] at lower' upper'
  exact ⟨le_of_mul_le_mul_right lower' positive,
    lt_of_mul_lt_mul_right upper' positive.le⟩

theorem readsBack_inside {x : Double} {count : Nat} {p : Int}
    (lower : (quarterInterval x).1 * (commonScale p (x.exponent - 2)).2 <
      count * (commonScale p (x.exponent - 2)).1)
    (upper : count * (commonScale p (x.exponent - 2)).1 <
      (quarterInterval x).2.2 * (commonScale p (x.exponent - 2)).2) :
    readsBack x count p = true := by
  simp only [readsBack]
  split <;> simp only [Bool.and_eq_true]
  · exact ⟨decide_eq_true lower.le, decide_eq_true upper.le⟩
  · exact ⟨decide_eq_true lower, decide_eq_true upper⟩

/-- The numbers between the ends of the interval, and the ends themselves when the significand is
even. -/
structure Rounds (x : Double) (r : ℚ) : Prop where
  lower : (quarterInterval x).1 * 2 ^ (x.exponent - 2) ≤ r
  upper : r ≤ (quarterInterval x).2.2 * 2 ^ (x.exponent - 2)
  strict : x.significand % 2 = 1 → (quarterInterval x).1 * 2 ^ (x.exponent - 2) < r ∧
    r < (quarterInterval x).2.2 * 2 ^ (x.exponent - 2)

theorem readsBack_rounds {x : Double} {count : Nat} {p : Int} (reads : readsBack x count p = true) :
    x.Rounds (count * 10 ^ p) := by
  obtain ⟨c, positive, tenths, halves⟩ := commonScale_spec p (x.exponent - 2)
  have scaled (n : Nat) : (n : ℚ) * (commonScale p (x.exponent - 2)).2 =
      n * 2 ^ (x.exponent - 2) * c := by rw [halves, mul_assoc]
  have counted : (count : ℚ) * (commonScale p (x.exponent - 2)).1 = count * 10 ^ p * c := by
    rw [tenths, mul_assoc]
  have le (a b : Nat) : a ≤ b ↔ (a : ℚ) ≤ b := Nat.cast_le.symm
  have lt (a b : Nat) : a < b ↔ (a : ℚ) < b := Nat.cast_lt.symm
  simp only [readsBack] at reads
  split at reads <;> simp only [Bool.and_eq_true, decide_eq_true_eq, le, lt, Nat.cast_mul, scaled,
    counted, mul_le_mul_iff_left₀ positive, mul_lt_mul_iff_left₀ positive] at reads
  next even =>
    refine ⟨reads.1, reads.2, ?_⟩
    intro odd
    simp [odd] at even
  next => exact ⟨reads.1.le, reads.2.le, fun _ => reads⟩

theorem nearestOnGrid?_some {tie : Tie} {x : Double} {p : Int} {count : Nat}
    (found : nearestOnGrid? tie x p = some count) :
    (count = x.below p ∨ count = x.below p + 1) ∧ readsBack x count p = true := by
  simp only [nearestOnGrid?] at found
  split at found
  next => cases found
  next first _ => cases found; exact ⟨.inl rfl, first⟩
  next _ second => cases found; exact ⟨.inr rfl, second⟩
  next first second =>
    split at found
    · cases found; exact ⟨.inl rfl, first⟩
    split at found
    · cases found; exact ⟨.inr rfl, second⟩
    cases tie with
    | up => cases found; exact ⟨.inr rfl, second⟩
    | even =>
      simp only at found
      split at found
      · cases found; exact ⟨.inl rfl, first⟩
      · cases found; exact ⟨.inr rfl, second⟩

theorem nearestOnGrid?_found (tie : Tie) {x : Double} {p : Int}
    (reads : readsBack x (x.below p) p = true ∨ readsBack x (x.below p + 1) p = true) :
    ∃ count, nearestOnGrid? tie x p = some count := by
  simp only [nearestOnGrid?]
  split
  next first second =>
    rcases reads with lower | upper
    · cases lower.symm.trans first
    · cases upper.symm.trans second
  next => exact ⟨_, rfl⟩
  next => exact ⟨_, rfl⟩
  next =>
    split
    · exact ⟨_, rfl⟩
    split
    · exact ⟨_, rfl⟩
    cases tie with
    | up => exact ⟨_, rfl⟩
    | even =>
      simp only
      split <;> exact ⟨_, rfl⟩

/-- The lower end of the interval: half a unit below the significand, or a quarter where the
units below are half as wide. -/
theorem lower_end (x : Double) : (quarterInterval x).1 = 4 * x.significand - 2 ∨
    ((quarterInterval x).1 = 4 * x.significand - 1 ∧ x.significand = 2 ^ 52) := by
  simp only [quarterInterval]
  split
  next binade => simp_all
  next => exact .inl rfl

/-- A grid that is finer than the double by sixteen digits has a point that reads back: a gap as
wide as the interval would need a larger significand. -/
theorem nearestOnGrid?_fine (tie : Tie) {x : Double} (nonzero : x.isZero = false) {p : Int}
    (fine : (10 : ℚ) ^ (p + 16) ≤ x.size) : ∃ count, nearestOnGrid? tie x p = some count := by
  obtain ⟨c, positive, tenths, halves⟩ := commonScale_spec p (x.exponent - 2)
  have scale := commonScale_pos p (x.exponent - 2)
  have dense : 10 ^ 16 * (commonScale p (x.exponent - 2)).1 ≤
      4 * (x.significand * (commonScale p (x.exponent - 2)).2) := by
    have scaled : (10 : ℚ) ^ 16 * (10 ^ p * c) ≤ 4 * (x.significand * (2 ^ (x.exponent - 2) * c)) := by
      have grown := mul_le_mul_of_nonneg_right fine positive.le
      rw [← quarter, zpow_add₀ (by norm_num)] at grown
      calc (10 : ℚ) ^ 16 * (10 ^ p * c) = 10 ^ p * 10 ^ (16 : Int) * c := by norm_num; ring
        _ ≤ _ := grown
        _ = _ := by ring
    rw [← tenths, ← halves] at scaled
    exact_mod_cast scaled
  obtain ⟨lower, upper⟩ := below_scaled x p
  have narrow := lower_end x
  have wide : (quarterInterval x).2.2 = 4 * x.significand + 2 := rfl
  have least := significand_pos nonzero
  have small := Nat.mul_lt_mul_of_pos_right (significand_lt x) scale.2
  have following : (x.below p + 1) * (commonScale p (x.exponent - 2)).1 =
    x.below p * (commonScale p (x.exponent - 2)).1 + (commonScale p (x.exponent - 2)).1 := by ring
  apply nearestOnGrid?_found
  by_cases inside : (quarterInterval x).1 * (commonScale p (x.exponent - 2)).2 <
      x.below p * (commonScale p (x.exponent - 2)).1
  · refine .inl (readsBack_inside inside ?_)
    rw [wide, Nat.add_mul]
    omega
  · refine .inr (readsBack_inside ?_ ?_)
    · refine lt_of_le_of_lt (Nat.mul_le_mul_right _ ?_) upper
      omega
    · rw [following, wide, Nat.add_mul]
      rcases narrow with ordinary | ⟨binade, bottom⟩
      · rw [ordinary, Nat.sub_mul, Nat.mul_assoc] at inside
        rw [Nat.mul_assoc] at lower ⊢
        omega
      · rw [binade, Nat.sub_mul, Nat.mul_assoc] at inside
        rw [Nat.mul_assoc] at lower ⊢
        rw [bottom] at inside lower dense ⊢
        omega

theorem shortestFrom_found (tie : Tie) (x : Double) (steps : Nat) (p : Int)
    (last : ∃ count, nearestOnGrid? tie x (p - steps) = some count) :
    ∃ count, ∃ k ≤ steps, shortestFrom tie x steps p = (count, p - k) ∧
      nearestOnGrid? tie x (p - k) = some count := by
  induction steps generalizing p with
  | zero =>
    obtain ⟨count, found⟩ := last
    rw [Nat.cast_zero, sub_zero] at found
    exact ⟨count, 0, le_rfl, by simp [shortestFrom, found], by simpa using found⟩
  | succ steps ih =>
    unfold shortestFrom
    split
    next count found => exact ⟨count, 0, by omega, by simp, by simpa using found⟩
    next =>
      have later : p - (steps + 1 : Nat) = p - 1 - steps := by omega
      obtain ⟨count, k, within, result, found⟩ := ih (p - 1) (later ▸ last)
      have shift : p - (k + 1 : Nat) = p - 1 - k := by omega
      refine ⟨count, k + 1, by omega, ?_, ?_⟩
      · rw [shift, result]
      · rw [shift, found]

theorem shortestFrom_spec (tie : Tie) {x : Double} (nonzero : x.isZero = false) :
    ∃ count p, shortestFrom tie x 16 x.leading = (count, p) ∧ readsBack x count p = true ∧
      0 < count ∧ count ≤ 10 ^ 17 := by
  obtain ⟨low, high⟩ := leading_spec nonzero
  obtain ⟨count, k, within, result, found⟩ := shortestFrom_found tie x 16 x.leading
    (nearestOnGrid?_fine tie nonzero (by simpa using low))
  obtain ⟨near, reads⟩ := nearestOnGrid?_some found
  obtain ⟨down, up⟩ := below_spec x (x.leading - k)
  have unit : (0 : ℚ) < 10 ^ (x.leading - k) := by positivity
  have one : 1 ≤ x.below (x.leading - k) := by
    have coarse : (10 : ℚ) ^ (x.leading - k) ≤ 10 ^ x.leading :=
      zpow_le_zpow_right₀ (by norm_num) (by omega)
    have more : 1 * (10 : ℚ) ^ (x.leading - k) < (x.below (x.leading - k) + 1) * 10 ^ (x.leading - k) := by
      linarith
    have : (1 : ℚ) < x.below (x.leading - k) + 1 := lt_of_mul_lt_mul_right more unit.le
    have : 1 < x.below (x.leading - k) + 1 := by exact_mod_cast this
    omega
  have bound : x.below (x.leading - k) < 10 ^ 17 := by
    have fine : (10 : ℚ) ^ (x.leading + 1) ≤ 10 ^ 17 * 10 ^ (x.leading - k) := by
      rw [← zpow_natCast, ← zpow_add₀ (by norm_num)]
      exact zpow_le_zpow_right₀ (by norm_num) (by push_cast; omega)
    have : (x.below (x.leading - k) : ℚ) < 10 ^ 17 :=
      lt_of_mul_lt_mul_right (by linarith) unit.le
    exact_mod_cast this
  exact ⟨count, _, result, reads, by omega, by omega⟩

theorem stripped (cs : List Char) :
    (cs.reverse.dropWhile (· == '0')).reverse ++
      List.replicate (cs.reverse.length - (cs.reverse.dropWhile (· == '0')).length) '0' = cs := by
  have parts := List.takeWhile_append_dropWhile (p := (· == '0')) (l := cs.reverse)
  have zeros : cs.reverse.takeWhile (· == '0') =
      List.replicate (cs.reverse.takeWhile (· == '0')).length '0' := by
    rw [List.eq_replicate_iff]
    refine ⟨rfl, ?_⟩
    intro c member
    simpa using List.all_eq_true.mp List.all_takeWhile c member
  have count : (cs.reverse.takeWhile (· == '0')).length =
      cs.reverse.length - (cs.reverse.dropWhile (· == '0')).length := by
    have := congrArg List.length parts
    rw [List.length_append] at this
    omega
  rw [← count]
  conv_rhs => rw [← cs.reverse_reverse, ← parts, List.reverse_append, zeros]
  simp

/-- Digits without a zero in front, for a number that reads back as `x`. -/
structure Decimal.For (x : Double) (d : Decimal) : Prop where
  digits : Digits d.digits
  present : d.digits ≠ []
  leading : d.digits.head? ≠ some '0'
  short : decimalValue d.digits ≤ 10 ^ 17
  rounds : x.Rounds (decimalValue d.digits * 10 ^ d.exponent)

theorem Decimal.For.upper {x : Double} {d : Decimal} (ok : d.For x) :
    (decimalValue d.digits : ℚ) * 10 ^ d.exponent ≤
      (4 * x.significand + 2) * 2 ^ (x.exponent - 2) := by
  have upper := ok.rounds.upper
  simp only [quarterInterval] at upper
  exact_mod_cast upper

theorem shortest_for (tie : Tie) {x : Double} (nonzero : x.isZero = false) :
    (x.shortest tie).For x := by
  obtain ⟨count, p, result, reads, positive, short⟩ := shortestFrom_spec tie nonzero
  have parts := stripped (decimal count)
  have value : decimalValue (decimal count) = count := decimalValue_decimal count
  have shape : x.shortest tie = ⟨((decimal count).reverse.dropWhile (· == '0')).reverse,
      p + ((decimal count).reverse.length -
        ((decimal count).reverse.dropWhile (· == '0')).length : Nat)⟩ := by
    unfold leading at result
    simp only [shortest, Nat.pow_eq, result]
  rw [shape]
  generalize ((decimal count).reverse.dropWhile (· == '0')).reverse = kept at *
  generalize (decimal count).reverse.length -
    ((decimal count).reverse.dropWhile (· == '0')).length = zeros at *
  have scaled : decimalValue kept * 10 ^ zeros = count := by
    rw [← value, ← parts, decimalValue, decimalValue, Nat.ofDigitChars_append,
      Nat.ofDigitChars_replicate_zero, Nat.mul_comm]
  have present : kept ≠ [] := by
    rintro rfl
    simp [decimalValue] at scaled
    omega
  constructor
  · intro c member
    exact decimal_digits count c (by rw [← parts]; simp [member])
  · exact present
  · obtain ⟨c, tail, rfl⟩ := List.exists_cons_of_ne_nil present
    simpa using decimal_head count positive c _ parts.symm
  · have := Nat.le_mul_of_pos_right (decimalValue kept) (by positivity : 0 < 10 ^ zeros)
    simp only
    omega
  · have same : (decimalValue kept : ℚ) * 10 ^ (p + zeros) = count * 10 ^ p := by
      rw [← scaled, zpow_add₀ (by norm_num), zpow_natCast]
      push_cast
      ring
    rw [same]
    exact readsBack_rounds reads

end AuditLog.Double
