import AuditLog.Proofs.DoubleText

/-! Doubles whose stored text reads back exactly. Rounding a ratio is correct: what lies between
the ends of the interval of a double rounds to it. So a text is read exactly where the reader
rounds once, which is where its count and its power of ten are doubles themselves. -/
namespace AuditLog.Double
open Text Json

theorem divideToEven_eq {num den m : Nat} (positive : 0 < den)
    (lower : 2 * (m * den) ≤ 2 * num + den) (upper : 2 * num ≤ 2 * (m * den) + den)
    (strict : m % 2 = 1 → 2 * (m * den) < 2 * num + den ∧ 2 * num < 2 * (m * den) + den) :
    divideToEven num den = m := by
  have parts := Nat.div_add_mod num den
  have rest := Nat.mod_lt num positive
  rw [divideToEven]
  generalize num / den = quotient at *
  generalize num % den = left at *
  rw [← parts] at lower upper strict
  rcases Nat.lt_trichotomy m quotient with less | rfl | more
  · obtain ⟨k, rfl⟩ := Nat.exists_eq_add_of_lt less
    have apart : den * (m + k + 1) = m * den + k * den + den := by ring
    omega
  · rw [Nat.mul_comm den] at lower upper strict
    split
    · rfl
    split
    · omega
    · have tie : m % 2 ≠ 1 := fun odd => by have := (strict odd).2; omega
      omega
  · obtain ⟨k, rfl⟩ := Nat.exists_eq_add_of_lt more
    have apart : (quotient + k + 1) * den = den * quotient + k * den + den := by ring
    rw [apart] at lower upper strict
    have single : k = 0 := by
      by_contra positive
      have := Nat.le_mul_of_pos_left den (Nat.pos_of_ne_zero positive)
      omega
    subst single
    simp only [Nat.zero_mul, Nat.add_zero] at *
    split
    · omega
    split
    · rfl
    · have tie : (quotient + 1) % 2 ≠ 1 := fun odd => by have := (strict odd).1; omega
      omega

/-- The ratio is rounded to the count that it is nearest to, a tie to the even one. -/
theorem scaledToEven_eq {num den m : Nat} (positive : 0 < den) {e : Int}
    (lower : (m - 1 / 2 : ℚ) * 2 ^ e ≤ num / den) (upper : (num / den : ℚ) ≤ (m + 1 / 2) * 2 ^ e)
    (strict : m % 2 = 1 → (m - 1 / 2 : ℚ) * 2 ^ e < num / den ∧
      (num / den : ℚ) < (m + 1 / 2) * 2 ^ e) :
    scaledToEven num den e = m := by
  have unit : (0 : ℚ) < 2 ^ e := by positivity
  have scaled := scaled_ratio num positive e
  have weight : (0 : ℚ) < (den * 2 ^ e.toNat : Nat) := by
    push_cast
    positivity
  rw [← le_div_iff₀ unit] at lower
  rw [← div_le_iff₀ unit] at upper
  rw [← lt_div_iff₀ unit, ← div_lt_iff₀ unit] at strict
  simp only [scaledToEven, Nat.pow_eq]
  generalize (num / den / 2 ^ e : ℚ) = ratio at *
  generalize num * 2 ^ (-e).toNat = top at *
  generalize den * 2 ^ e.toNat = below at *
  refine divideToEven_eq (by exact_mod_cast weight) ?_ ?_ ?_
  · rw [← Nat.cast_le (α := ℚ)]
    push_cast
    rw [scaled]
    nlinarith
  · rw [← Nat.cast_le (α := ℚ)]
    push_cast
    rw [scaled]
    nlinarith
  · intro odd
    obtain ⟨least, most⟩ := strict odd
    rw [← Nat.cast_lt (α := ℚ), ← Nat.cast_lt (α := ℚ)]
    push_cast
    rw [scaled]
    constructor <;> nlinarith

theorem scaledToEven_exact {num den m : Nat} (positive : 0 < den) {e : Int}
    (exact : (num / den : ℚ) = m * 2 ^ e) : scaledToEven num den e = m := by
  have unit : (0 : ℚ) < 2 ^ e := by positivity
  apply scaledToEven_eq positive
  · rw [exact]
    linarith
  · rw [exact]
    linarith
  · intro _
    rw [exact]
    constructor <;> linarith

theorem magnitude_eq (x : Double) :
    x.magnitude = (x.exponent + 1074).toNat * 2 ^ 52 + x.significand := by
  simp only [exponent, significand]
  split <;> omega

theorem exponent_least (x : Double) :
    -1074 ≤ x.exponent ∧ (x.exponent = -1074 ∨ 2 ^ 52 ≤ x.significand) := by
  simp only [exponent, significand]
  split <;> omega

theorem binade_end {x : Double} (bottom : x.significand = 2 ^ 52) (inside : -1074 < x.exponent) :
    (quarterInterval x).1 = 2 ^ 54 - 1 := by
  have magnitude := magnitude_eq x
  have above : 0x20000000000000 ≤ x.magnitude := by omega
  simp [quarterInterval, bottom, above]

section Nearest

variable {x : Double} {num den : Nat}

theorem Rounds.near (nonzero : x.isZero = false) {r : ℚ} (rounds : x.Rounds r) :
    (x.significand - 1 / 2 : ℚ) * 2 ^ x.exponent ≤ r ∧
      r ≤ (x.significand + 1 / 2) * 2 ^ x.exponent ∧
      (x.significand % 2 = 1 → (x.significand - 1 / 2 : ℚ) * 2 ^ x.exponent < r ∧
        r < (x.significand + 1 / 2) * 2 ^ x.exponent) := by
  have positive := significand_pos nonzero
  obtain ⟨lower, upper, strict⟩ := rounds
  have unit : (0 : ℚ) < 2 ^ (x.exponent - 2) := by positivity
  have whole : (2 : ℚ) ^ x.exponent = 4 * 2 ^ (x.exponent - 2) := by
    rw [show x.exponent = x.exponent - 2 + 2 by omega, power_split]
    norm_num
  have top : ((quarterInterval x).2.2 : ℚ) = 4 * x.significand + 2 := by
    simp only [quarterInterval]
    push_cast
    rfl
  have bottom : (4 * x.significand - 2 : ℚ) ≤ (quarterInterval x).1 := by
    have least : 4 * x.significand ≤ (quarterInterval x).1 + 2 := by
      have := lower_end x
      omega
    have := (Nat.cast_le (α := ℚ)).mpr least
    push_cast at this
    linarith
  have reach := mul_le_mul_of_nonneg_right bottom unit.le
  rw [top] at upper strict
  rw [whole]
  generalize (2 : ℚ) ^ (x.exponent - 2) = h at *
  refine ⟨by linarith, by linarith, ?_⟩
  intro odd
  obtain ⟨above, below⟩ := strict odd
  exact ⟨by linarith, by linarith⟩

/-- Just below a power of two the units are half as wide, and the count goes up to the power. -/
theorem Rounds.below_binade (nonzero : x.isZero = false) (denominator : 0 < den)
    (rounds : x.Rounds (num / den)) {e : Int} (least : -1074 ≤ e) (less : e < x.exponent)
    (upper : (num / den : ℚ) < 2 ^ (e + 53)) :
    x.significand = 2 ^ 52 ∧ e = x.exponent - 1 ∧ scaledToEven num den e = 2 ^ 53 := by
  have near := (rounds.near nonzero).1
  have least' := exponent_least x
  have unit : (0 : ℚ) < 2 ^ x.exponent := by positivity
  have quarter : (0 : ℚ) < 2 ^ (x.exponent - 2) := by positivity
  have place : (2 : ℚ) ^ (e + 53) ≤ 2 ^ (x.exponent + 52) :=
    zpow_le_zpow_right₀ (by norm_num) (by omega)
  have bottom : x.significand = 2 ^ 52 := by
    rw [power_split x.exponent] at place
    have short : (x.significand - 1 / 2 : ℚ) < 2 ^ 52 :=
      lt_of_mul_lt_mul_right (near.trans_lt (upper.trans_le place)) unit.le
    have : (x.significand : ℚ) < (2 ^ 52 + 1 : Nat) := by
      push_cast
      linarith
    have : x.significand < 2 ^ 52 + 1 := by exact_mod_cast this
    omega
  have reach := rounds.lower
  rw [binade_end bottom (by omega)] at reach
  push_cast at reach
  have next : e = x.exponent - 1 := by
    by_contra other
    have far : (2 : ℚ) ^ (e + 53) ≤ 2 ^ (x.exponent - 2 + 53) :=
      zpow_le_zpow_right₀ (by norm_num) (by omega)
    rw [power_split (x.exponent - 2)] at far
    linarith
  have units : (2 : ℚ) ^ e = 2 * 2 ^ (x.exponent - 2) := by
    rw [next, show x.exponent - 1 = x.exponent - 2 + 1 by omega, power_split, zpow_one]
  rw [power_split, units] at upper
  refine ⟨bottom, next, scaledToEven_eq denominator ?_ ?_ ?_⟩
  · rw [units]
    push_cast
    linarith
  · rw [units]
    push_cast
    linarith
  · intro odd
    cases odd

/-- Rounding is correct: a ratio between the ends of the interval of a double gives the double. -/
theorem ofRatio_rounds (finite : x.isFinite = true) (nonzero : x.isZero = false)
    (numerator : 0 < num) (denominator : 0 < den) (rounds : x.Rounds (num / den))
    (negative : Bool) : ofRatio negative num den = ofMagnitude negative x.magnitude := by
  obtain ⟨e, least, lower, upper, result⟩ := ofRatio_place numerator denominator
  obtain ⟨near, far, strict⟩ := rounds.near nonzero
  have bounded : x.magnitude < infinityMagnitude := of_decide_eq_true finite
  have magnitude := magnitude_eq x
  have small := significand_lt x
  have least' := (exponent_least x).1
  have unit : (0 : ℚ) < 2 ^ x.exponent := by positivity
  have le : e ≤ x.exponent := by
    by_contra more
    have reached := lower.resolve_left (by omega)
    have place : (2 : ℚ) ^ (x.exponent + 53) ≤ 2 ^ (e + 52) :=
      zpow_le_zpow_right₀ (by norm_num) (by omega)
    have count : (x.significand + 1 : ℚ) ≤ 2 ^ 53 := by exact_mod_cast small
    rw [power_split] at place
    nlinarith
  rcases Int.lt_or_eq_of_le le with less | same
  · obtain ⟨bottom, next, count⟩ := rounds.below_binade nonzero denominator least less upper
    have carried : (e + 1074).toNat * 2 ^ 52 + 2 ^ 53 = x.magnitude := by omega
    rw [result, count, carried, min_eq_left bounded.le]
  · subst same
    rw [result, scaledToEven_eq denominator near far strict, ← magnitude, min_eq_left bounded.le]

theorem Rounds.pos (nonzero : x.isZero = false) {r : ℚ} (rounds : x.Rounds r) : 0 < r := by
  have positive : (1 : ℚ) ≤ x.significand := by exact_mod_cast significand_pos nonzero
  have unit : (0 : ℚ) < 2 ^ x.exponent := by positivity
  have near := (rounds.near nonzero).1
  have least := mul_le_mul_of_nonneg_right (show (1 / 2 : ℚ) ≤ x.significand - 1 / 2 by linarith)
    unit.le
  linarith

theorem numerator_pos (positive : (0 : ℚ) < num / den) : 0 < num := by
  rcases Nat.eq_zero_or_pos num with rfl | numerator
  · rw [Nat.cast_zero, zero_div] at positive
    exact absurd positive (lt_irrefl 0)
  · exact numerator

end Nearest

section Exact

theorem negative_ofMagnitude (negative : Bool) {magnitude : Nat} (bound : magnitude < 2 ^ 63) :
    (ofMagnitude negative magnitude).negative = negative := by
  simp only [ofMagnitude, Double.negative, UInt64.toNat_ofNat']
  cases negative with
  | true =>
    rw [if_pos rfl, decide_eq_true_eq]
    omega
  | false =>
    rw [if_neg (by decide), decide_eq_false_iff_not]
    omega

theorem isZero_of_size {x : Double} (positive : 0 < x.size) : x.isZero = false := by
  cases zero : x.isZero with
  | false => rfl
  | true =>
    have magnitude : x.magnitude = 0 := of_decide_eq_true zero
    simp [size, significand, magnitude] at positive

/-- A count of less than 53 binary digits is a double. -/
theorem ofRatio_count {count : Nat} (counted : 0 < count) (small : count < 2 ^ 53) :
    (ofRatio false count 1).size = count ∧ (ofRatio false count 1).negative = false := by
  obtain ⟨e, least, lower, upper, result⟩ := ofRatio_exponent Nat.one_pos counted
  have bounded : (count / (1 : Nat) : ℚ) < overflow := by
    have room : 2 ^ 53 < overflow := by decide +kernel
    rw [Nat.cast_one, div_one]
    exact_mod_cast small.trans room
  obtain ⟨atLeast, atMost⟩ := scaledToEven_range Nat.one_pos lower upper
  have fits := scaledToEven_fits Nat.one_pos least lower upper bounded
  have word := fits.trans (show infinityMagnitude < 2 ^ 63 by decide)
  have place : ((e + 1074).toNat : Int) - 1074 = e := by omega
  have low : e ≤ 0 := by
    have less : (2 : ℚ) ^ (e + 52) < 2 ^ (53 : Int) := by
      refine lower.trans_lt ?_
      rw [Nat.cast_one, div_one]
      exact_mod_cast small
    have := (zpow_lt_zpow_iff_right₀ (by norm_num)).mp less
    omega
  have exact : (count / (1 : Nat) : ℚ) = (count * 2 ^ (-e).toNat : Nat) * 2 ^ e := by
    have unit : e.toNat = 0 := by omega
    have split := natural_power (b := 2) (by norm_num) e
    rw [unit, pow_zero] at split
    push_cast
    rw [mul_assoc, mul_comm (2 ^ _), ← split, div_one, mul_one]
  have shape := magnitude_ofMagnitude false word
  rw [result, min_eq_left fits.le]
  refine ⟨?_, negative_ofMagnitude false word⟩
  rw [size_of_magnitude shape atLeast atMost, place, scaledToEven_exact Nat.one_pos exact, ← exact,
    Nat.cast_one, div_one]

/-- So is a power of ten whose power of five has less than 53 binary digits. -/
theorem powerOfTen_size {k : Nat} (near : k ≤ 22) :
    (powerOfTen k).size = 10 ^ k ∧ (powerOfTen k).negative = false := by
  have table : ∀ k < 23, (powerOfTen k).significand * 2 ^ (powerOfTen k).exponent.toNat =
      10 ^ k * 2 ^ (-(powerOfTen k).exponent).toNat ∧ (powerOfTen k).negative = false := by
    decide +kernel
  obtain ⟨same, positive⟩ := table k (Nat.lt_succ_of_le near)
  have weight : (0 : ℚ) < 2 ^ (-(powerOfTen k).exponent).toNat := by positivity
  refine ⟨?_, positive⟩
  have cast := congrArg (Nat.cast (R := ℚ)) same
  push_cast at cast
  rw [natural_power (by norm_num), ← mul_assoc] at cast
  exact mul_right_cancel₀ weight.ne' cast

theorem divFinite_eq (x : Double) {y : Double} (nonzero : y.isZero = false) :
    ∃ num den, 0 < den ∧ x.divFinite y = ofRatio (x.negative != y.negative) num den ∧
      (num / den : ℚ) = x.size / y.size := by
  have divisor := significand_pos nonzero
  refine ⟨x.significand * 2 ^ (x.exponent - y.exponent).toNat,
    y.significand * 2 ^ (-(x.exponent - y.exponent)).toNat, by positivity, rfl, ?_⟩
  have counted : (0 : ℚ) < y.significand := by exact_mod_cast divisor
  have weight : (0 : ℚ) < 2 ^ (-(x.exponent - y.exponent)).toNat := by positivity
  have unit : (0 : ℚ) < 2 ^ y.exponent := by positivity
  unfold size
  push_cast
  rw [natural_power (by norm_num) (x.exponent - y.exponent), zpow_sub₀ (by norm_num)]
  field_simp

/-- Scaling is exact up to one rounding when neither the count nor the power of ten is rounded. -/
theorem scaled?_exact {x : Double} (finite : x.isFinite = true) (nonzero : x.isZero = false)
    {count : Nat} {e : Int} (small : count < 2 ^ 53) (low : -22 ≤ e) (high : e ≤ 22)
    (rounds : x.Rounds (count * 10 ^ e)) : scaled? x.negative count e = some x := by
  have positive := rounds.pos nonzero
  have unit : (0 : ℚ) < 10 ^ e := by positivity
  have counted : 0 < count := by
    rcases Nat.eq_zero_or_pos count with rfl | counted
    · rw [Nat.cast_zero, zero_mul] at positive
      exact absurd positive (lt_irrefl 0)
    · exact counted
  obtain ⟨countSize, countSign⟩ := ofRatio_count counted small
  obtain ⟨powerSize, powerSign⟩ := powerOfTen_size (k := e.natAbs) (by omega)
  have countNonzero := isZero_of_size (countSize ▸ (Nat.cast_pos (α := ℚ)).mpr counted)
  have powerNonzero : (powerOfTen e.natAbs).isZero = false :=
    isZero_of_size (by rw [powerSize]; positivity)
  -- whichever way the power is applied, one ratio is rounded, and it rounds to the double
  have rounded {num den : Nat} (denominator : 0 < den) (ratio : (num / den : ℚ) = count * 10 ^ e) :
      ofRatio false num den = ofMagnitude false x.magnitude :=
    ofRatio_rounds finite nonzero (numerator_pos (ratio ▸ positive)) denominator (ratio ▸ rounds) _
  have word : x.magnitude < 2 ^ 63 := Nat.mod_lt _ (by decide)
  have kept : (ofMagnitude false x.magnitude).isFinite = true := by
    rw [isFinite, magnitude_ofMagnitude false word]
    exact finite
  have signed : (if x.negative = true then (ofMagnitude false x.magnitude).neg
      else ofMagnitude false x.magnitude) = x := by
    rw [neg, magnitude_ofMagnitude false word, negative_ofMagnitude false word]
    conv_rhs => rw [← ofMagnitude_self x]
    cases x.negative <;> rfl
  simp only [scaled?, countNonzero, Bool.false_eq_true, if_false, if_neg (show ¬ 308 < e by omega)]
  rcases lt_or_ge e 0 with fraction | large
  · rw [if_neg (by omega), if_pos (by omega), show (-e).toNat = e.natAbs by omega]
    obtain ⟨num, den, denominator, quotient, ratio⟩ :=
      divFinite_eq (ofRatio false count 1) powerNonzero
    rw [countSign, powerSign] at quotient
    have value : (num / den : ℚ) = count * 10 ^ e := by
      have opposite : (e.natAbs : Int) = -e := by omega
      rw [ratio, countSize, powerSize, ← zpow_natCast, opposite, zpow_neg, div_inv_eq_mul]
    rw [quotient, bne_self_eq_false, rounded denominator value, Option.map_some, signed]
  · rw [if_pos large, show e.toNat = e.natAbs by omega]
    obtain ⟨num, den, denominator, product, ratio⟩ :=
      mulFinite_eq (ofRatio false count 1) (powerOfTen e.natAbs)
    rw [countSign, powerSign] at product
    have value : (num / den : ℚ) = count * 10 ^ e := by
      rw [ratio, countSize, powerSize, ← zpow_natCast, Int.natAbs_of_nonneg large]
    rw [product, bne_self_eq_false, rounded denominator value, if_pos kept, Option.map_some, signed]

end Exact

theorem scaled?_asRead {x : Double} (finite : x.isFinite = true) :
    scaled? x.negative x.asRead.1 x.asRead.2 = some x.reread := by
  obtain ⟨y, scaled⟩ := asRead_isSome x.negative finite
  have whole := value?_reread deepest finite closes_nil
  rw [value?_stored deepest x closes_nil, scaled] at whole
  cases whole
  exact scaled

theorem rounds_asRead {x : Double} (nonzero : x.isZero = false) :
    x.Rounds (x.asRead.1 * 10 ^ x.asRead.2) := by
  have rounds := (shortest_for .even nonzero).rounds
  simp only [asRead, nonzero, Bool.false_eq_true, if_false, Decimal.asRead]
  split
  next whole =>
    have power : (10 : ℚ) ^ ((x.shortest .even).exponent.toNat + 1) =
        10 ^ (x.shortest .even).exponent * 10 := by
      rw [pow_succ, ← zpow_natCast, Int.toNat_of_nonneg whole.1]
    push_cast
    rw [power, zpow_neg, zpow_one, mul_assoc, mul_assoc, mul_inv_cancel₀ (by norm_num), mul_one]
    exact rounds
  next => exact rounds

/-- A double reads back exactly if its digits, as they are read, stand for a count of less than 53
binary digits of a power of ten that is a double. -/
theorem reread_eq_self {x : Double} (finite : x.isFinite = true) (small : x.asRead.1 < 2 ^ 53)
    (low : -22 ≤ x.asRead.2) (high : x.asRead.2 ≤ 22) : x.reread = x := by
  have scaled := scaled?_asRead finite
  cases zero : x.isZero with
  | false =>
    rw [scaled?_exact finite zero small low high (rounds_asRead zero)] at scaled
    exact (Option.some.inj scaled).symm
  | true =>
    have magnitude : x.magnitude = 0 := of_decide_eq_true zero
    have self := ofMagnitude_self x
    rw [magnitude] at self
    have read : scaled? x.negative 0 (-1) = some (ofMagnitude x.negative 0) := by
      cases x.negative <;> decide +kernel
    rw [asRead, if_pos zero, read, self] at scaled
    exact (Option.some.inj scaled).symm

end AuditLog.Double
