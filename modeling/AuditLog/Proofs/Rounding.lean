import AuditLog.Proofs.ShortestDecimal
import Mathlib.Tactic.FieldSimp

/-! Rounding of a ratio of at least one: the double is off by at most half a unit in the last
place, and finite below the number halfway between the largest double and the next power of two.
These bounds hold through a product of two rounded factors. -/
namespace AuditLog.Double

theorem magnitude_ofMagnitude {magnitude : Nat} (negative : Bool) (bound : magnitude < 2 ^ 63) :
    (ofMagnitude negative magnitude).magnitude = magnitude := by
  simp only [ofMagnitude, Double.magnitude, UInt64.toNat_ofNat']
  split <;> omega

theorem ofMagnitude_self (x : Double) : ofMagnitude x.negative x.magnitude = x := by
  have range := x.bits.toNat_lt
  have same (n : Nat) (equal : n = x.bits.toNat) : (⟨UInt64.ofNat n⟩ : Double) = x := by
    rw [equal, UInt64.ofNat_toNat]
  unfold ofMagnitude
  apply same
  cases sign : x.negative with
  | true =>
    have high : 2 ^ 63 ≤ x.bits.toNat := of_decide_eq_true sign
    simp only [if_true, magnitude]
    omega
  | false =>
    have low : ¬ 2 ^ 63 ≤ x.bits.toNat := of_decide_eq_false sign
    simp only [Bool.false_eq_true, if_false, magnitude]
    omega

theorem divideToEven_spec (num : Nat) {den : Nat} (positive : 0 < den) :
    num / den ≤ divideToEven num den ∧ 2 * (divideToEven num den * den) ≤ 2 * num + den := by
  have parts := Nat.div_add_mod num den
  have small := Nat.mod_lt num positive
  have up : (num / den + 1) * den = den * (num / den) + den := by ring
  have down : num / den * den = den * (num / den) := Nat.mul_comm ..
  simp only [divideToEven]
  split
  · exact ⟨le_rfl, by omega⟩
  split
  · exact ⟨Nat.le_succ _, by rw [up]; omega⟩
  · rcases Nat.mod_two_eq_zero_or_one (num / den) with even | odd
    · rw [even, Nat.add_zero]
      exact ⟨le_rfl, by omega⟩
    · rw [odd]
      exact ⟨Nat.le_succ _, by rw [up]; omega⟩

theorem scaled_ratio (num : Nat) {den : Nat} (positive : 0 < den) (e : Int) :
    ((num * 2 ^ (-e).toNat : Nat) : ℚ) = num / den / 2 ^ e * (den * 2 ^ e.toNat : Nat) := by
  have below : (den : ℚ) ≠ 0 := by exact_mod_cast positive.ne'
  have unit : (2 : ℚ) ^ e ≠ 0 := by positivity
  push_cast
  rw [natural_power (by norm_num) e]
  field_simp

theorem scaled_quotient_lt (num : Nat) {den : Nat} (positive : 0 < den) (e : Int) (bound : Nat) :
    num * 2 ^ (-e).toNat / (den * 2 ^ e.toNat) < bound ↔ (num / den : ℚ) < bound * 2 ^ e := by
  have scaled := scaled_ratio num positive e
  have unit : (0 : ℚ) < (den * 2 ^ e.toNat : Nat) := by
    push_cast
    positivity
  rw [Nat.div_lt_iff_lt_mul (by positivity), ← Nat.cast_lt (α := ℚ), scaled, Nat.cast_mul bound,
    mul_lt_mul_iff_left₀ unit, div_lt_iff₀ (by positivity)]

theorem log2_bounds {n : Nat} (positive : 0 < n) :
    (2 : ℚ) ^ (n.log2 : Int) ≤ n ∧ (n : ℚ) < 2 ^ (n.log2 + 1 : Int) := by
  constructor
  · rw [zpow_natCast]
    exact_mod_cast Nat.log2_self_le positive.ne'
  · rw [← Nat.cast_succ, zpow_natCast]
    exact_mod_cast Nat.lt_log2_self

theorem ratio_log2 {num den : Nat} (numerator : 0 < num) (denominator : 0 < den) :
    (2 : ℚ) ^ ((num.log2 : Int) - den.log2 - 53 + 52) ≤ num / den ∧
      (num / den : ℚ) < 2 ^ ((num.log2 : Int) - den.log2 - 53 + 54) := by
  have below : (0 : ℚ) < den := by exact_mod_cast denominator
  obtain ⟨numLow, numHigh⟩ := log2_bounds numerator
  obtain ⟨denLow, denHigh⟩ := log2_bounds denominator
  constructor
  · rw [le_div_iff₀ below]
    calc (2 : ℚ) ^ ((num.log2 : Int) - den.log2 - 53 + 52) * den
        ≤ 2 ^ ((num.log2 : Int) - den.log2 - 53 + 52) * 2 ^ (den.log2 + 1 : Int) :=
          mul_le_mul_of_nonneg_left denHigh.le (by positivity)
      _ = 2 ^ (num.log2 : Int) := by
          rw [← zpow_add₀ (by norm_num)]
          congr 1
          omega
      _ ≤ num := numLow
  · rw [div_lt_iff₀ below]
    calc (num : ℚ) < 2 ^ (num.log2 + 1 : Int) := numHigh
      _ = 2 ^ ((num.log2 : Int) - den.log2 - 53 + 54) * 2 ^ (den.log2 : Int) := by
          rw [← zpow_add₀ (by norm_num)]
          congr 1
          omega
      _ ≤ _ := mul_le_mul_of_nonneg_left denLow (by positivity)

/-- The exponent that rounding chooses puts the ratio between two powers of two, unless it is the
least one. -/
theorem ofRatio_place {num den : Nat} (numerator : 0 < num) (denominator : 0 < den) :
    ∃ e : Int, -1074 ≤ e ∧ (e = -1074 ∨ (2 : ℚ) ^ (e + 52) ≤ num / den) ∧
      (num / den : ℚ) < 2 ^ (e + 53) ∧
      ∀ negative, ofRatio negative num den = ofMagnitude negative
        (min ((e + 1074).toNat * 2 ^ 52 + scaledToEven num den e) infinityMagnitude) := by
  have nonzero : num ≠ 0 := numerator.ne'
  obtain ⟨lower, upper⟩ := ratio_log2 numerator denominator
  generalize chosen : max ((num.log2 : Int) - den.log2 - 53) (-1074) = low
  have low_spec : low = -1074 ∨ low = (num.log2 : Int) - den.log2 - 53 := by omega
  have small := scaled_quotient_lt num denominator low (2 ^ 53)
  have unscaled : (num / den : ℚ) < ((2 ^ 53 : Nat) : ℚ) * 2 ^ low ↔
      (num / den : ℚ) < 2 ^ (low + 53) := by
    rw [zpow_add₀ (by norm_num), mul_comm]
    norm_num
  rw [unscaled] at small
  by_cases fits : num * 2 ^ (-low).toNat / (den * 2 ^ low.toNat) < 0x20000000000000
  · refine ⟨low, by omega, ?_, small.mp fits, ?_⟩
    · rcases low_spec with least | normal
      · exact .inl least
      · exact .inr (normal ▸ lower)
    · intro negative
      simp only [ofRatio, nonzero, if_false, chosen, Nat.pow_eq, fits, if_true, Nat.reducePow]
  · have reached : (2 : ℚ) ^ (low + 53) ≤ num / den := not_lt.mp (mt small.mpr fits)
    refine ⟨low + 1, by omega, .inr ?_, upper.trans_le ?_, ?_⟩
    · rw [show low + 1 + 52 = low + 53 by omega]
      exact reached
    · exact zpow_le_zpow_right₀ (by norm_num) (by omega)
    · intro negative
      simp only [ofRatio, nonzero, if_false, chosen, Nat.pow_eq, fits, Nat.reducePow]

theorem ofRatio_exponent {num den : Nat} (positive : 0 < den) (large : den ≤ num) :
    ∃ e : Int, -53 ≤ e ∧ (2 : ℚ) ^ (e + 52) ≤ num / den ∧ (num / den : ℚ) < 2 ^ (e + 53) ∧
      ∀ negative, ofRatio negative num den = ofMagnitude negative
        (min ((e + 1074).toNat * 2 ^ 52 + scaledToEven num den e) infinityMagnitude) := by
  obtain ⟨e, -, lower, upper, result⟩ := ofRatio_place (positive.trans_le large) positive
  have one : (2 : ℚ) ^ (0 : Int) ≤ num / den := by
    rw [zpow_zero, le_div_iff₀ (by exact_mod_cast positive), one_mul]
    exact_mod_cast large
  have least := (zpow_lt_zpow_iff_right₀ (by norm_num)).mp (one.trans_lt upper)
  exact ⟨e, by omega, lower.resolve_left (by omega), upper, result⟩

theorem size_of_magnitude {x : Double} {place count : Nat}
    (shape : x.magnitude = place * 2 ^ 52 + count) (least : 2 ^ 52 ≤ count)
    (most : count ≤ 2 ^ 53) : x.size = count * 2 ^ ((place : Int) - 1074) := by
  rcases Nat.lt_or_eq_of_le most with inside | carried
  · have field : x.magnitude / 0x10000000000000 = place + 1 := by omega
    have fraction : x.magnitude % 0x10000000000000 = count - 2 ^ 52 := by omega
    have significand : x.significand = count := by
      simp only [Double.significand, field, fraction]
      rw [if_neg (Nat.succ_ne_zero _)]
      omega
    have exponent : x.exponent = place - 1074 := by
      simp only [Double.exponent, field]
      omega
    rw [size, significand, exponent]
  · have field : x.magnitude / 0x10000000000000 = place + 2 := by omega
    have fraction : x.magnitude % 0x10000000000000 = 0 := by omega
    have significand : x.significand = 2 ^ 52 := by
      simp only [Double.significand, field, fraction]
      rw [if_neg (Nat.succ_ne_zero _), Nat.add_zero]
      norm_num
    have exponent : x.exponent = place - 1074 + 1 := by
      simp only [Double.exponent, field]
      omega
    rw [size, significand, exponent, carried, zpow_add₀ (by norm_num)]
    push_cast
    ring

def overflow : Nat := (2 ^ 54 - 1) * 2 ^ 970

theorem overflow_cast : (overflow : ℚ) = (2 ^ 54 - 1) * 2 ^ (970 : Int) := by
  rw [overflow, Nat.cast_mul, Nat.cast_pow, Nat.cast_ofNat, zpow_ofNat]
  norm_num

theorem power_split (e k : Int) : (2 : ℚ) ^ (e + k) = 2 ^ k * 2 ^ e := by
  rw [zpow_add₀ (by norm_num), mul_comm]

theorem scaledToEven_above (num : Nat) {den : Nat} (positive : 0 < den) (e : Int) :
    (scaledToEven num den e : ℚ) * 2 ^ e ≤ num / den + 2 ^ e / 2 := by
  have scale : 0 < den * 2 ^ e.toNat := by positivity
  obtain ⟨-, near⟩ := divideToEven_spec (num * 2 ^ (-e).toNat) scale
  have rounded : scaledToEven num den e =
      divideToEven (num * 2 ^ (-e).toNat) (den * 2 ^ e.toNat) := rfl
  rw [← rounded] at near
  have scaled := scaled_ratio num positive e
  have cast : (2 : ℚ) * (scaledToEven num den e * (den * 2 ^ e.toNat : Nat)) ≤
      2 * (num * 2 ^ (-e).toNat : Nat) + (den * 2 ^ e.toNat : Nat) := by exact_mod_cast near
  have weight : (0 : ℚ) < (den * 2 ^ e.toNat : Nat) := by exact_mod_cast scale
  rw [scaled] at cast
  generalize ((den * 2 ^ e.toNat : Nat) : ℚ) = w at *
  have count : (scaledToEven num den e : ℚ) ≤ num / den / 2 ^ e + 1 / 2 :=
    le_of_mul_le_mul_right (by linarith) weight
  have spread : (num / den / 2 ^ e + 1 / 2 : ℚ) * 2 ^ e = num / den + 2 ^ e / 2 := by
    field_simp
  rw [← spread]
  exact mul_le_mul_of_nonneg_right count (by positivity)

theorem scaledToEven_most {num den : Nat} (positive : 0 < den) {e : Int}
    (upper : (num / den : ℚ) < 2 ^ (e + 53)) : scaledToEven num den e ≤ 2 ^ 53 := by
  have unit : (0 : ℚ) < 2 ^ e := by positivity
  have above := scaledToEven_above num positive e
  rw [power_split] at upper
  have short : (scaledToEven num den e : ℚ) < (2 ^ 53 + 1 : Nat) :=
    lt_of_mul_lt_mul_right (by push_cast; linarith) unit.le
  have : scaledToEven num den e < 2 ^ 53 + 1 := by exact_mod_cast short
  omega

/-- Between two powers of two the count has 53 binary digits, or is the next power itself. -/
theorem scaledToEven_range {num den : Nat} (positive : 0 < den) {e : Int}
    (lower : (2 : ℚ) ^ (e + 52) ≤ num / den) (upper : (num / den : ℚ) < 2 ^ (e + 53)) :
    2 ^ 52 ≤ scaledToEven num den e ∧ scaledToEven num den e ≤ 2 ^ 53 := by
  refine ⟨?_, scaledToEven_most positive upper⟩
  have scale : 0 < den * 2 ^ e.toNat := by positivity
  rw [power_split] at lower
  have reached := mt (scaled_quotient_lt num positive e (2 ^ 52)).mp (by push_cast; linarith)
  have floor := (divideToEven_spec (num * 2 ^ (-e).toNat) scale).1
  exact (Nat.le_of_not_lt reached).trans floor

/-- Below the overflow, rounding up ends before the word of infinity. -/
theorem scaledToEven_fits {num den : Nat} (positive : 0 < den) {e : Int} (least : -53 ≤ e)
    (lower : (2 : ℚ) ^ (e + 52) ≤ num / den) (upper : (num / den : ℚ) < 2 ^ (e + 53))
    (bounded : (num / den : ℚ) < overflow) :
    (e + 1074).toNat * 2 ^ 52 + scaledToEven num den e < infinityMagnitude := by
  have unit : (0 : ℚ) < 2 ^ e := by positivity
  have above := scaledToEven_above num positive e
  have most := (scaledToEven_range positive lower upper).2
  rw [power_split] at lower upper
  rw [overflow_cast] at bounded
  have last : e ≤ 971 := by
    have room : (2 : ℚ) ^ (e + 52) < 2 ^ (970 + 54 : Int) := by
      rw [power_split, power_split]
      have top : (0 : ℚ) < 2 ^ (970 : Int) := by positivity
      generalize (2 : ℚ) ^ (970 : Int) = h at *
      linarith
    have := (zpow_lt_zpow_iff_right₀ (by norm_num)).mp room
    omega
  unfold infinityMagnitude
  rcases Int.lt_or_eq_of_le last with inside | final
  · omega
  · have short : (scaledToEven num den e : ℚ) < (2 ^ 53 : Nat) := by
      refine lt_of_mul_lt_mul_right ?_ unit.le
      have top : (2 : ℚ) ^ e = 2 * 2 ^ (970 : Int) := by
        rw [final, show (971 : Int) = 970 + 1 from rfl, power_split, zpow_one]
      rw [top] at above ⊢
      generalize (2 : ℚ) ^ (970 : Int) = h at *
      push_cast
      linarith
    have : scaledToEven num den e < 2 ^ 53 := by exact_mod_cast short
    omega

/-- A ratio below the overflow rounds to a finite double, up by half a unit at most. -/
theorem ofRatio_bounded (negative : Bool) {num den : Nat} (positive : 0 < den) (large : den ≤ num)
    (bounded : (num / den : ℚ) < overflow) :
    (ofRatio negative num den).isFinite = true ∧ 1 ≤ (ofRatio negative num den).size ∧
      (ofRatio negative num den).size ≤ num / den * (1 + 1 / 2 ^ 53) := by
  obtain ⟨e, least, lower, upper, result⟩ := ofRatio_exponent positive large
  have unit : (0 : ℚ) < 2 ^ e := by positivity
  have above := scaledToEven_above num positive e
  obtain ⟨atLeast, atMost⟩ := scaledToEven_range positive lower upper
  have fits := scaledToEven_fits positive least lower upper bounded
  have shape := magnitude_ofMagnitude negative (fits.trans (by decide))
  have place : ((e + 1074).toNat : Int) - 1074 = e := by omega
  rw [result, min_eq_left fits.le, size_of_magnitude shape atLeast atMost, place]
  rw [power_split] at lower upper
  refine ⟨?_, ?_, by linarith⟩
  · rw [isFinite, shape]
    exact decide_eq_true fits
  · have one : (1 : ℚ) ≤ num / den := by
      rw [le_div_iff₀ (by exact_mod_cast positive), one_mul]
      exact_mod_cast large
    have least : (2 : ℚ) ^ (0 : Int) < 2 ^ (e + 53) := by
      rw [zpow_zero, power_split]
      linarith
    have place := (zpow_lt_zpow_iff_right₀ (by norm_num)).mp least
    have units : (1 : ℚ) ≤ 2 ^ (e + 52) := one_le_zpow₀ (by norm_num) (by omega)
    rw [power_split] at units
    have count : ((2 ^ 52 : Nat) : ℚ) ≤ scaledToEven num den e := by exact_mod_cast atLeast
    have grown := mul_le_mul_of_nonneg_right count unit.le
    push_cast at grown
    exact units.trans grown

end AuditLog.Double
