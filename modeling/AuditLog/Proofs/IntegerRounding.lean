import AuditLog.Proofs.ExactDoubles

/-! Integers rounded to doubles. Rounding keeps the order of two integers, and it makes one double of
both only where each has a size of at least `2 ^ 53`. -/
namespace AuditLog.Double

theorem divideToEven_mono {num num' : Nat} (le : num ≤ num') (den : Nat) :
    divideToEven num den ≤ divideToEven num' den := by
  have quotients : num / den ≤ num' / den := Nat.div_le_div_right le
  have rests : num / den = num' / den → num % den ≤ num' % den := by
    intro same
    have parts := Nat.div_add_mod num den
    have parts' := Nat.div_add_mod num' den
    rw [same] at parts
    omega
  simp only [divideToEven]
  generalize num / den = quotient at *
  generalize num' / den = quotient' at *
  split_ifs <;> omega

theorem scaledToEven_mono {num num' : Nat} (le : num ≤ num') (den : Nat) (e : Int) :
    scaledToEven num den e ≤ scaledToEven num' den e :=
  divideToEven_mono (Nat.mul_le_mul_right _ le) _

/-- Rounding sets the sign apart from the magnitude, which is at most that of infinity. -/
theorem ofRatio_shape (num den : Nat) : ∃ magnitude ≤ infinityMagnitude,
    ∀ negative, ofRatio negative num den = ofMagnitude negative magnitude := by
  unfold ofRatio
  split
  · exact ⟨0, Nat.zero_le _, fun _ => rfl⟩
  · exact ⟨min _ infinityMagnitude, Nat.min_le_right .., fun _ => rfl⟩

theorem magnitude_ofRatio_zero (negative : Bool) (den : Nat) :
    (ofRatio negative 0 den).magnitude = 0 := by
  rw [ofRatio, if_pos rfl, zero, magnitude_ofMagnitude negative (by decide)]

/-- A larger numerator rounds to no smaller double. -/
theorem magnitude_ofRatio_mono {num num' den : Nat} (le : num ≤ num') (positive : 0 < den)
    (negative negative' : Bool) :
    (ofRatio negative num den).magnitude ≤ (ofRatio negative' num' den).magnitude := by
  rcases Nat.eq_zero_or_pos num with rfl | numerator
  · rw [magnitude_ofRatio_zero]
    exact Nat.zero_le _
  obtain ⟨e, least, lower, upper, result⟩ := ofRatio_place numerator positive
  obtain ⟨e', least', lower', upper', result'⟩ := ofRatio_place (numerator.trans_le le) positive
  have word (m : Nat) : min m infinityMagnitude < 2 ^ 63 :=
    (Nat.min_le_right ..).trans_lt (by decide)
  rw [result, result', magnitude_ofMagnitude _ (word _), magnitude_ofMagnitude _ (word _)]
  have ratios : (num / den : ℚ) ≤ num' / den := by
    have cast : (num : ℚ) ≤ num' := by exact_mod_cast le
    exact div_le_div_of_nonneg_right cast (Nat.cast_nonneg den)
  suffices (e + 1074).toNat * 2 ^ 52 + scaledToEven num den e ≤
      (e' + 1074).toNat * 2 ^ 52 + scaledToEven num' den e' from min_le_min_right _ this
  -- within a binade the counts tell; a count rounded up reaches the start of the next one at most
  rcases Int.lt_trichotomy e e' with earlier | rfl | later
  · have most := scaledToEven_most positive upper
    have reached := (scaledToEven_range positive (lower'.resolve_left (by omega)) upper').1
    omega
  · exact Nat.add_le_add_left (scaledToEven_mono le den e) _
  · have reached := lower.resolve_left (by omega)
    have crossed := (zpow_lt_zpow_iff_right₀ (by norm_num)).mp
      (reached.trans_lt (ratios.trans_lt upper'))
    omega

section Integer

variable {i j : Int}

theorem isNaN_ofInt (i : Int) : (ofInt i).isNaN = false := by
  obtain ⟨magnitude, bound, shape⟩ := ofRatio_shape i.natAbs 1
  rw [ofInt, shape, isNaN, magnitude_ofMagnitude _ (bound.trans_lt (by decide))]
  exact decide_eq_false (Nat.not_lt.mpr bound)

theorem rank_ofInt (i : Int) : (ofInt i).rank =
    if i < 0 then -((ofRatio false i.natAbs 1).magnitude : Int)
    else (ofRatio false i.natAbs 1).magnitude := by
  obtain ⟨magnitude, bound, shape⟩ := ofRatio_shape i.natAbs 1
  have word : magnitude < 2 ^ 63 := bound.trans_lt (by decide)
  rw [ofInt, shape, shape, rank, magnitude_ofMagnitude _ word, magnitude_ofMagnitude _ word,
    negative_ofMagnitude _ word]
  simp only [decide_eq_true_eq]

theorem rank_ofInt_mono (le : i ≤ j) : (ofInt i).rank ≤ (ofInt j).rank := by
  rw [rank_ofInt, rank_ofInt]
  split_ifs with below below'
  · have := magnitude_ofRatio_mono (show j.natAbs ≤ i.natAbs by omega) Nat.one_pos false false
    omega
  · omega
  · omega
  · have := magnitude_ofRatio_mono (show i.natAbs ≤ j.natAbs by omega) Nat.one_pos false false
    omega

theorem size_ofRatio_one {count : Nat} (small : count < 2 ^ 53) :
    (ofRatio false count 1).size = count := by
  rcases Nat.eq_zero_or_pos count with rfl | counted
  · have none := magnitude_ofRatio_zero false 1
    simp [size, significand, none]
  · exact (ofRatio_count counted small).1

/-- The next natural number is another double as long as the first has at most 53 binary digits. -/
theorem magnitude_ofRatio_succ {count : Nat} (small : count < 2 ^ 53) :
    (ofRatio false count 1).magnitude < (ofRatio false (count + 1) 1).magnitude := by
  rcases Nat.lt_or_eq_of_le (Nat.succ_le_of_lt small) with next | last
  · apply (magnitude_ofRatio_mono (Nat.le_succ count) Nat.one_pos false false).lt_of_ne
    intro same
    have sizes : (ofRatio false count 1).size = (ofRatio false (count + 1) 1).size := by
      simp only [size, significand, exponent, same]
    rw [size_ofRatio_one small, size_ofRatio_one next] at sizes
    exact absurd (Nat.cast_injective sizes) (Nat.succ_ne_self count).symm
  · obtain rfl : count = 2 ^ 53 - 1 := by omega
    decide +kernel

theorem magnitude_ofRatio_strict {count more : Nat} (less : count < more) (small : count < 2 ^ 53) :
    (ofRatio false count 1).magnitude < (ofRatio false more 1).magnitude :=
  (magnitude_ofRatio_succ small).trans_le (magnitude_ofRatio_mono less Nat.one_pos false false)

/-- Two integers that round to one double are both at least `2 ^ 53` in size. -/
theorem large_of_rank_eq (less : i < j) (same : (ofInt i).rank = (ofInt j).rank) :
    2 ^ 53 ≤ i.natAbs ∧ 2 ^ 53 ≤ j.natAbs := by
  rw [rank_ofInt, rank_ofInt] at same
  split_ifs at same with below below'
  · have large := mt (magnitude_ofRatio_strict (show j.natAbs < i.natAbs by omega)) (by omega)
    omega
  · have positive := magnitude_ofRatio_strict (show 0 < i.natAbs by omega) (by decide)
    omega
  · omega
  · have large := mt (magnitude_ofRatio_strict (show i.natAbs < j.natAbs by omega)) (by omega)
    omega

end Integer

end AuditLog.Double
