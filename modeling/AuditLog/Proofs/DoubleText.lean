import AuditLog.Number.Notation
import AuditLog.Proofs.JsonText
import AuditLog.Proofs.Rounding

/-! The stored text of a finite double as the reader of JSON takes it: a count of powers of ten
whose digits all fit a word. Only the scaling of that count, in double arithmetic, may miss the
double by a last place. -/
namespace AuditLog.Double
open Text Json

theorem decimalValue_lt {cs : List Char} (digits : Digits cs) :
    decimalValue cs < 10 ^ cs.length := by
  induction cs using List.reverseRecOn with
  | nil => simp [decimalValue]
  | append_singleton cs c ih =>
    have front := ih (digits.sublist (List.sublist_append_left cs [c]))
    have digit := (isDigit_iff c).mp (digits c (by simp))
    have zero : '0'.toNat = 48 := rfl
    rw [decimalValue] at front ⊢
    rw [Nat.ofDigitChars_append, Nat.ofDigitChars_cons, Nat.ofDigitChars_nil, List.length_append,
      List.length_singleton, Nat.pow_succ]
    omega

theorem decimalValue_zeros (cs : List Char) (n : Nat) :
    decimalValue (cs ++ zeros n) = decimalValue cs * 10 ^ n := by
  rw [decimalValue, zeros, Nat.ofDigitChars_append, Nat.ofDigitChars_replicate_zero, Nat.mul_comm]
  rfl

theorem zeros_decimalValue (cs : List Char) (n : Nat) :
    decimalValue (zeros n ++ cs) = decimalValue cs := by
  rw [decimalValue, zeros, Nat.ofDigitChars_append, Nat.ofDigitChars_replicate_zero, Nat.mul_zero]
  rfl

def Decimal.text (d : Decimal) : List Char :=
  if (d.digits.length : Int) + d.exponent ≤ -5 || 16 < (d.digits.length : Int) + d.exponent then
    d.scientific
  else if 0 ≤ d.exponent then d.positional ++ ['.', '0']
  else d.positional

/-- The count and the exponent that the reader takes from the stored text of a decimal. A whole
number is read with the zero after its point. -/
def Decimal.asRead (d : Decimal) : Nat × Int :=
  if 0 ≤ d.exponent ∧ (d.digits.length : Int) + d.exponent ≤ 16 then
    (decimalValue d.digits * 10 ^ (d.exponent.toNat + 1), -1)
  else (decimalValue d.digits, d.exponent)

section Reading

variable {x : Double} {d : Decimal} {rest : List Char}

theorem scientific_cons (c : Char) (more : List Char) (e : Int) :
    Decimal.scientific ⟨c :: more, e⟩ =
      [c] ++ (pointed more ++ ('e' :: (if more.length + e < 0 then '-' else '+') ::
        decimal (more.length + e).natAbs)) := by
  have power : ((c :: more).length : Int) + e - 1 = more.length + e := by
    rw [List.length_cons]
    omega
  have fraction : (if (c :: more).length ≤ 1 then [] else '.' :: (c :: more).drop 1) =
      pointed more := by
    cases more <;> simp [pointed]
  simp only [Decimal.scientific, power, fraction]
  simp

theorem number?_scientific (negative : Bool) (ok : d.For x) (closes : Closes rest) :
    number? negative (d.scientific ++ rest) =
      (scaled? negative (decimalValue d.digits) d.exponent).map fun y => (.double y, rest) := by
  obtain ⟨digits, e⟩ := d
  obtain ⟨c, more, rfl⟩ := List.exists_cons_of_ne_nil ok.present
  have first : Digits [c] := ok.digits.sublist (List.sublist_append_left [c] more)
  have after : Digits more := ok.digits.sublist (List.sublist_cons_self c more)
  have whole : Whole [c] := ⟨first, by simp, .inl rfl⟩
  have short : decimalValue (c :: more) ≤ 10 ^ 17 := ok.short
  have read := number?_scaled negative _ whole after closes (by simp)
    (exponent?_written (more.length + e) closes) (.inr (by simp))
    (by simp only [List.singleton_append]; omega)
  have cancel : (more.length : Int) + e - more.length = e := by omega
  rw [cancel] at read
  rw [scientific_cons, List.append_assoc, List.append_assoc, read]
  rfl

theorem integral_short (ok : d.For x) (integral : 0 ≤ d.exponent)
    (near : (d.digits.length : Int) + d.exponent ≤ 16) :
    decimalValue d.digits * 10 ^ (d.exponent.toNat + 1) ≤ 10 ^ 17 := by
  have power : 10 ^ d.digits.length * 10 ^ (d.exponent.toNat + 1) ≤ 10 ^ 17 := by
    rw [← Nat.pow_add]
    exact Nat.pow_le_pow_right (by decide) (by omega)
  exact (Nat.mul_le_mul_right _ (decimalValue_lt ok.digits).le).trans power

theorem number?_integral (negative : Bool) (ok : d.For x) (integral : 0 ≤ d.exponent)
    (near : (d.digits.length : Int) + d.exponent ≤ 16) (closes : Closes rest) :
    number? negative (d.positional ++ ['.', '0'] ++ rest) =
      (scaled? negative (decimalValue d.digits * 10 ^ (d.exponent.toNat + 1)) (-1)).map
        fun y => (.double y, rest) := by
  have value : decimalValue (d.digits ++ zeros d.exponent.toNat ++ ['0']) =
      decimalValue d.digits * 10 ^ (d.exponent.toNat + 1) := by
    rw [List.append_assoc, ← decimalValue_zeros, zeros, zeros, List.replicate_succ']
  have bound : decimalValue d.digits * 10 ^ (d.exponent.toNat + 1) < 2 ^ 64 := by
    have := integral_short ok integral near
    omega
  have whole : Whole (d.digits ++ zeros d.exponent.toNat) := by
    refine ⟨ok.digits.append (zeros_digits _), by simp [ok.present], .inr ?_⟩
    rw [List.head?_append_of_ne_nil _ ok.present]
    exact ok.leading
  have read := number?_scaled negative [] whole zero_digits closes (by simp)
    (exponent?_closes closes) (.inl (by simp)) (by rw [value]; exact bound)
  rw [value] at read
  simpa [Decimal.positional, integral, pointed] using read

theorem number?_fractional (negative : Bool) (ok : d.For x) (fractional : d.exponent < 0)
    (closes : Closes rest) :
    number? negative (d.positional ++ rest) =
      (scaled? negative (decimalValue d.digits) d.exponent).map fun y => (.double y, rest) := by
  have short := ok.short
  unfold Decimal.positional
  rw [if_neg (by omega)]
  split
  next inside =>
    obtain ⟨n, point⟩ : ∃ n : Nat, (d.digits.length : Int) + d.exponent = n + 1 :=
      ⟨((d.digits.length : Int) + d.exponent - 1).toNat, by omega⟩
    have cut : ((d.digits.length : Int) + d.exponent).toNat = n + 1 := by omega
    rw [cut]
    have parts := List.take_append_drop (n + 1) d.digits
    have whole : Whole (d.digits.take (n + 1)) := by
      refine ⟨ok.digits.sublist (List.take_sublist _ _), ?_, .inr ?_⟩
      · simpa using ok.present
      · rw [List.head?_take, if_neg (by omega)]
        exact ok.leading
    have after : Digits (d.digits.drop (n + 1)) := ok.digits.sublist (List.drop_sublist _ _)
    have nonempty : d.digits.drop (n + 1) ≠ [] := by
      rw [ne_eq, List.drop_eq_nil_iff]
      omega
    have read := number?_scaled negative [] whole after closes (by simp)
      (exponent?_closes closes) (.inl nonempty) (by rw [parts]; omega)
    have scale : 0 - ((d.digits.drop (n + 1)).length : Int) = d.exponent := by
      rw [List.length_drop]
      omega
    rw [parts, scale] at read
    rw [← read]
    simp [pointed, nonempty]
  next outside =>
    generalize zerosBefore : (-((d.digits.length : Int) + d.exponent)).toNat = n
    have after : Digits (zeros n ++ d.digits) := (zeros_digits n).append ok.digits
    have nonempty : zeros n ++ d.digits ≠ [] := by simp [ok.present]
    have value : decimalValue (['0'] ++ (zeros n ++ d.digits)) = decimalValue d.digits := by
      rw [← List.append_assoc]
      exact zeros_decimalValue d.digits (n + 1)
    have read := number?_scaled negative [] Whole.zero after closes (by simp)
      (exponent?_closes closes) (.inl nonempty) (by rw [value]; omega)
    have scale : 0 - ((zeros n ++ d.digits).length : Int) = d.exponent := by
      rw [List.length_append, zeros, List.length_replicate]
      omega
    rw [value, scale] at read
    rw [← read]
    simp [pointed, ok.present]

theorem number?_text (negative : Bool) (ok : d.For x) (closes : Closes rest) :
    number? negative (d.text ++ rest) =
      (scaled? negative d.asRead.1 d.asRead.2).map fun y => (.double y, rest) := by
  unfold Decimal.text Decimal.asRead
  split
  next far =>
    rw [if_neg ?_]
    · exact number?_scientific negative ok closes
    · have present := List.length_pos_iff.mpr ok.present
      simp only [Bool.or_eq_true, decide_eq_true_eq] at far
      omega
  next near =>
    simp only [Bool.or_eq_true, decide_eq_true_eq, not_or] at near
    split
    next integral =>
      rw [if_pos (by omega)]
      exact number?_integral negative ok integral (by omega) closes
    next fractional =>
      rw [if_neg (by omega)]
      exact number?_fractional negative ok (by omega) closes

theorem text_head (ok : d.For x) : ∃ c tail, d.text = c :: tail ∧ isDigit c = true := by
  obtain ⟨digits, e⟩ := d
  obtain ⟨c, more, rfl⟩ := List.exists_cons_of_ne_nil ok.present
  have digit : isDigit c = true := ok.digits c (by simp)
  have positional : ∃ c' tail, Decimal.positional ⟨c :: more, e⟩ = c' :: tail ∧ isDigit c' = true := by
    unfold Decimal.positional
    split
    · exact ⟨c, _, rfl, digit⟩
    · simp only
      split
      next point =>
        obtain ⟨n, cut⟩ := Nat.exists_eq_succ_of_ne_zero
          (show ((c :: more : List Char).length + e : Int).toNat ≠ 0 by omega)
        rw [cut]
        exact ⟨c, _, rfl, digit⟩
      next => exact ⟨'0', _, rfl, rfl⟩
  obtain ⟨c', tail, shape, digit'⟩ := positional
  unfold Decimal.text
  split
  · exact ⟨c, _, scientific_cons c more e, digit⟩
  · split
    · exact ⟨c', tail ++ ['.', '0'], by rw [shape]; rfl, digit'⟩
    · exact ⟨c', tail, shape, digit'⟩

end Reading

/-- The count and the exponent that the reader takes from the stored text of a double. -/
def asRead (x : Double) : Nat × Int :=
  if x.isZero then (0, -1) else (x.shortest .even).asRead

theorem value?_withSign (depth : Nat) (x : Double) {text rest : List Char} {count : Nat} {power : Int}
    (head : ∃ c tail, text = c :: tail ∧ isDigit c = true)
    (number : ∀ negative, number? negative (text ++ rest) =
      (scaled? negative count power).map fun y => (.double y, rest)) :
    value? depth (x.withSign text ++ rest) =
      (scaled? x.negative count power).map fun y => (.double y, rest) := by
  rw [← number]
  unfold withSign
  split
  next negative =>
    rw [negative]
    cases depth <;> rfl
  next positive =>
    rw [Bool.not_eq_true] at positive
    obtain ⟨c, tail, rfl, digit⟩ := head
    rw [positive]
    have digits : Digits [c] := by simpa [Digits] using digit
    exact value?_digits depth digits (by simp) (tail ++ rest)

theorem value?_stored (depth : Nat) (x : Double) {rest : List Char} (closes : Closes rest) :
    value? depth (x.stored ++ rest) =
      (scaled? x.negative x.asRead.1 x.asRead.2).map fun y => (.double y, rest) := by
  unfold Double.stored Double.asRead
  split
  next zero =>
    apply value?_withSign depth x ⟨'0', _, rfl, rfl⟩
    intro negative
    exact number?_scaled negative [] Whole.zero zero_digits closes (by simp)
      (exponent?_closes closes) (.inl (by simp)) (by decide)
  next nonzero =>
    have ok := shortest_for .even (Bool.eq_false_of_not_eq_true nonzero)
    apply value?_withSign depth x (text_head ok)
    intro negative
    exact number?_text negative ok closes

theorem mulFinite_eq (x y : Double) : ∃ num den, 0 < den ∧
    x.mulFinite y = ofRatio (x.negative != y.negative) num den ∧
    (num / den : ℚ) = x.size * y.size := by
  refine ⟨x.significand * y.significand * 2 ^ (x.exponent + y.exponent).toNat,
    2 ^ (-(x.exponent + y.exponent)).toNat, by positivity, rfl, ?_⟩
  have positive : (0 : ℚ) < 2 ^ (-(x.exponent + y.exponent)).toNat := by positivity
  unfold size
  push_cast
  rw [div_eq_iff positive.ne', natural_power (by norm_num) (x.exponent + y.exponent),
    zpow_add₀ (by norm_num)]
  ring

private theorem ten_power_le {a b : Nat} (less : a ≤ b) : 10 ^ a ≤ 10 ^ b :=
  Nat.pow_le_pow_right (by decide) less

theorem power_near {count e : Nat} (counted : 1 ≤ count) (low : count * 10 ^ e ≤ overflow) :
    10 ^ e ≤ overflow ∧ e < 309 := by
  have powerLow := (Nat.le_mul_of_pos_left (10 ^ e) counted).trans low
  refine ⟨powerLow, ?_⟩
  by_contra large
  have size := (ten_power_le (Nat.le_of_not_lt large)).trans powerLow
  have room : overflow < 10 ^ 309 := by decide +kernel
  exact absurd size (Nat.not_le_of_lt room)

theorem near_overflow {count e : Nat} (short : count ≤ 10 ^ 17) (low : count * 10 ^ e ≤ overflow)
    (high : overflow * (2 ^ 53) ^ 2 ≤ count * 10 ^ e * (2 ^ 53 + 1) ^ 2) :
    e = 292 ∧ 17976931348623154 < count ∧ count < 17976931348623159 := by
  have coarse : 291 < e := by
    by_contra small
    have size := Nat.mul_le_mul short (ten_power_le (Nat.le_of_not_lt small))
    have room : 10 ^ 17 * 10 ^ 291 * (2 ^ 53 + 1) ^ 2 < overflow * (2 ^ 53) ^ 2 := by
      decide +kernel
    exact absurd (high.trans (Nat.mul_le_mul_right _ size)) (Nat.not_le_of_lt room)
  have counted : 1 ≤ count := by
    by_contra zero
    obtain rfl : count = 0 := by omega
    rw [Nat.zero_mul, Nat.zero_mul] at high
    exact absurd high (by decide +kernel)
  have fine : e < 309 := (power_near counted low).2
  have most : count ≤ overflow / 10 ^ e := (Nat.le_div_iff_mul_le (by positivity)).mpr low
  -- on the coarser grids even the last count below the overflow is not that close
  have last : ∀ i < 16, overflow / 10 ^ (293 + i) * 10 ^ (293 + i) * (2 ^ 53 + 1) ^ 2 <
      overflow * (2 ^ 53) ^ 2 := by decide +kernel
  have single : e = 292 := by
    by_contra other
    have size := Nat.mul_le_mul_right (10 ^ e) most
    have room := last (e - 293) (by omega)
    rw [show 293 + (e - 293) = e by omega] at room
    exact absurd (high.trans (Nat.mul_le_mul_right _ size)) (Nat.not_le_of_lt room)
  subst single
  have top : overflow / 10 ^ 292 = 17976931348623158 := by decide +kernel
  refine ⟨rfl, ?_, by omega⟩
  by_contra small
  have size := Nat.mul_le_mul_right (10 ^ 292) (Nat.le_of_not_lt small)
  have room : 17976931348623154 * 10 ^ 292 * (2 ^ 53 + 1) ^ 2 < overflow * (2 ^ 53) ^ 2 := by
    decide +kernel
  exact absurd (high.trans (Nat.mul_le_mul_right _ size)) (Nat.not_le_of_lt room)

theorem powerOfTen_eq {e : Nat} (near : e < 309) : powerOfTen e = ofRatio false (10 ^ e) 1 := by
  have exponent : (-(e : Int)).toNat = 0 := by omega
  simp only [powerOfTen, ofDecimal, Int.toNat_natCast, exponent, Nat.one_mul, Nat.pow_eq, Nat.pow_zero]
  rw [if_neg (by decide), if_neg (by omega), if_neg (by omega)]

/-- A count of at most seventeen digits times a power of ten, both rounded, does not overflow
where the exact product does not, with one exception. -/
theorem product_finite {count e : Nat} (counted : 1 ≤ count) (short : count ≤ 10 ^ 17)
    (low : count * 10 ^ e ≤ overflow) (other : ¬ (count = 17976931348623158 ∧ e = 292)) :
    ((ofRatio false count 1).mulFinite (powerOfTen e)).isFinite = true := by
  by_cases clear : count * 10 ^ e * (2 ^ 53 + 1) ^ 2 < overflow * (2 ^ 53) ^ 2
  · have room : 10 ^ 17 < overflow := by decide +kernel
    obtain ⟨-, near⟩ := power_near counted low
    have powerRoom : 10 ^ e < overflow := by
      have size := ten_power_le (Nat.le_of_lt_succ near)
      have room : 10 ^ 308 < overflow := by decide +kernel
      exact Nat.lt_of_le_of_lt size room
    obtain ⟨-, countLeast, countMost⟩ := ofRatio_bounded false Nat.one_pos counted
      (by rw [Nat.cast_one, div_one]; exact_mod_cast short.trans_lt room)
    obtain ⟨-, powerLeast, powerMost⟩ := ofRatio_bounded false Nat.one_pos
      (Nat.one_le_pow e 10 (by decide)) (by rw [Nat.cast_one, div_one]; exact_mod_cast powerRoom)
    rw [Nat.cast_one, div_one] at countMost powerMost
    obtain ⟨num, den, positive, result, ratio⟩ :=
      mulFinite_eq (ofRatio false count 1) (ofRatio false (10 ^ e) 1)
    rw [powerOfTen_eq near, result]
    have below : (0 : ℚ) < den := by exact_mod_cast positive
    refine (ofRatio_bounded _ positive ?_ ?_).1
    · have one : (1 : ℚ) ≤ num / den := ratio ▸ one_le_mul_of_one_le_of_one_le countLeast powerLeast
      rw [le_div_iff₀ below, one_mul] at one
      exact_mod_cast one
    · have bound : (num / den : ℚ) ≤
          count * (1 + 1 / 2 ^ 53) * ((10 ^ e : Nat) * (1 + 1 / 2 ^ 53)) := by
        rw [ratio]
        exact mul_le_mul countMost powerMost (by linarith) (by positivity)
      have cleared : (count * 10 ^ e * (2 ^ 53 + 1) ^ 2 : ℚ) < overflow * (2 ^ 53) ^ 2 := by
        exact_mod_cast clear
      generalize (overflow : ℚ) = top at *
      push_cast at bound
      generalize (10 : ℚ) ^ e = power at *
      linarith
  · obtain ⟨rfl, above, below⟩ := near_overflow short low (Nat.le_of_not_lt clear)
    obtain rfl | rfl | rfl : count = 17976931348623155 ∨ count = 17976931348623156 ∨
      count = 17976931348623157 := by omega
    all_goals decide +kernel

theorem upper_end {x : Double} (finite : x.isFinite = true) :
    x.magnitude = infinityMagnitude - 1 ∨
      (4 * x.significand + 2 : ℚ) * 2 ^ (x.exponent - 2) ≤ ((2 ^ 54 - 3) * 2 ^ 970 : Nat) := by
  have bound : x.magnitude < 0x7FF0000000000000 := of_decide_eq_true finite
  have top : (((2 ^ 54 - 3) * 2 ^ 970 : Nat) : ℚ) = (2 ^ 54 - 3) * 2 ^ (970 : Int) := by
    rw [Nat.cast_mul, Nat.cast_pow 2 970, Nat.cast_ofNat, zpow_ofNat]
    norm_num
  rw [or_iff_not_imp_left, top]
  intro smaller
  simp only [infinityMagnitude] at smaller
  have units : (2 : ℚ) ^ (970 : Int) = 2 * 2 ^ (969 : Int) ∧ (2 : ℚ) ^ (969 : Int) = 2 * 2 ^ (968 : Int) := by
    rw [show (970 : Int) = 969 + 1 from rfl, power_split, zpow_one,
      show (969 : Int) = 968 + 1 from rfl, power_split, zpow_one]
    exact ⟨rfl, rfl⟩
  rcases Nat.lt_or_ge x.magnitude (2046 * 2 ^ 52) with inside | final
  · have place : x.exponent - 2 ≤ 968 := by
      simp only [exponent]
      omega
    have unit : (2 : ℚ) ^ (x.exponent - 2) ≤ 2 ^ (968 : Int) :=
      zpow_le_zpow_right₀ (by norm_num) place
    have count : ((x.significand : ℚ)) ≤ 2 ^ 53 := by exact_mod_cast (significand_lt x).le
    have positive : (0 : ℚ) < 2 ^ (968 : Int) := by positivity
    have product := mul_le_mul (show (4 * x.significand + 2 : ℚ) ≤ 4 * 2 ^ 53 + 2 by linarith) unit
      (by positivity) (by norm_num)
    refine product.trans ?_
    rw [units.1, units.2]
    generalize (2 : ℚ) ^ (968 : Int) = h at *
    linarith only [positive]
  · have place : x.exponent - 2 = 969 := by
      simp only [exponent]
      omega
    have count : x.significand ≤ 2 ^ 53 - 2 := by
      simp only [significand]
      split <;> omega
    have count' : (x.significand : ℚ) ≤ 2 ^ 53 - 2 := by
      have := (Nat.cast_le (α := ℚ)).mpr count
      norm_num at this ⊢
      linarith
    have product := mul_le_mul_of_nonneg_right
      (show (4 * x.significand + 2 : ℚ) ≤ 4 * (2 ^ 53 - 2) + 2 by linarith)
      (show (0 : ℚ) ≤ 2 ^ (969 : Int) by positivity)
    rw [place, units.1]
    refine product.trans ?_
    generalize (2 : ℚ) ^ (969 : Int) = h at *
    linarith

theorem scaled?_isSome (negative : Bool) {count : Nat} {e : Int} (short : count ≤ 10 ^ 17)
    (low : 0 ≤ e → count * 10 ^ e.toNat ≤ overflow)
    (other : ¬ (count = 17976931348623158 ∧ e = 292)) :
    ∃ y, scaled? negative count e = some y := by
  unfold scaled?
  simp only [Option.map_eq_some_iff]
  rw [exists_comm]
  split
  · exact ⟨_, _, rfl, rfl⟩
  next nonzero =>
    have counted : 1 ≤ count := by
      by_contra zero
      obtain rfl : count = 0 := by omega
      exact nonzero (by decide)
    rcases lt_or_ge e 0 with small | large
    · rw [if_neg (by omega), if_neg (by omega)]
      split
      · exact ⟨_, _, rfl, rfl⟩
      split
      · exact ⟨_, _, rfl, rfl⟩
      · exact ⟨_, _, rfl, rfl⟩
    · have near := (power_near counted (low large)).2
      rw [if_neg (by omega), if_pos large,
        if_pos (product_finite counted short (low large) (by omega))]
      exact ⟨_, _, rfl, rfl⟩

theorem upper_overflow {x : Double} (finite : x.isFinite = true) :
    (4 * x.significand + 2 : ℚ) * 2 ^ (x.exponent - 2) ≤ overflow := by
  rcases upper_end finite with largest | smaller
  · have significand : x.significand = 2 ^ 53 - 1 := by
      simp only [Double.significand, largest, infinityMagnitude]
      decide
    have exponent : x.exponent - 2 = 969 := by
      simp only [Double.exponent, largest, infinityMagnitude]
      decide
    rw [significand, exponent, overflow_cast, show (970 : Int) = 969 + 1 from rfl, power_split,
      zpow_one]
    generalize (2 : ℚ) ^ (969 : Int) = h at *
    norm_num
    linarith
  · refine smaller.trans ?_
    have below : (2 ^ 54 - 3) * 2 ^ 970 ≤ overflow := by decide +kernel
    exact_mod_cast below

/-- The one decimal whose scaling overflows is not the shortest of any finite double: of the two
next to the largest double, the other is nearer. -/
theorem asRead_ne {x : Double} (finite : x.isFinite = true) (nonzero : x.isZero = false) :
    (x.shortest .even).asRead ≠ (17976931348623158, 292) := by
  rcases upper_end finite with largest | smaller
  · rw [← ofMagnitude_self x, largest]
    cases x.negative <;> decide +kernel
  · intro equal
    unfold Decimal.asRead at equal
    split at equal
    · cases congrArg Prod.snd equal
    · have upper := (shortest_for .even nonzero).upper.trans smaller
      obtain ⟨digits, exponent⟩ := Prod.mk.inj equal
      rw [digits, exponent, zpow_ofNat] at upper
      have beyond : 17976931348623158 * 10 ^ 292 ≤ (2 ^ 54 - 3) * 2 ^ 970 := by exact_mod_cast upper
      exact absurd beyond (by decide +kernel)

theorem asRead_isSome (negative : Bool) {x : Double} (finite : x.isFinite = true) :
    ∃ y, scaled? negative x.asRead.1 x.asRead.2 = some y := by
  unfold asRead
  split
  · exact scaled?_isSome negative (by decide) (by decide) (by decide)
  next nonzero =>
    rw [Bool.not_eq_true] at nonzero
    have ok := shortest_for .even nonzero
    have other := asRead_ne finite nonzero
    unfold Decimal.asRead at other ⊢
    split
    next whole =>
      exact scaled?_isSome negative (integral_short ok whole.1 whole.2) (by simp) (by simp)
    next scientific =>
      rw [if_neg scientific] at other
      apply scaled?_isSome negative ok.short
      · intro large
        simp only at large ⊢
        have upper := ok.upper.trans (upper_overflow finite)
        rw [← Int.toNat_of_nonneg large, zpow_natCast] at upper
        exact_mod_cast upper
      · intro both
        exact other (Prod.ext both.1 both.2)

/-- What is read from the stored text of a double; nearly always the double itself. -/
def reread (x : Double) : Double :=
  match parse? (String.ofList x.stored) with
  | some (.double y) => y
  | _ => x

/-- The stored text of a finite double reads back, whatever follows it. -/
theorem value?_reread (depth : Nat) {x : Double} (finite : x.isFinite = true) {rest : List Char}
    (closes : Closes rest) :
    value? depth (x.stored ++ rest) = some (.double x.reread, rest) := by
  obtain ⟨y, scaled⟩ := asRead_isSome x.negative finite
  have alone := value?_stored deepest x closes_nil
  have parsed : parse? (String.ofList x.stored) = some (.double y) := by
    rw [List.append_nil, scaled] at alone
    simp only [parse?, String.toList_ofList, alone]
    rfl
  rw [value?_stored depth x closes, scaled, reread, parsed]
  rfl

end AuditLog.Double
