import AuditLog.Text.Digits

/-! Double-precision numbers as their 64 bits, with exact integer arithmetic. A
number other than NaN is ordered by its `rank`, and every operation computes
the exact result first and rounds it once, to nearest with ties to even. -/
namespace AuditLog

structure Double where
  bits : UInt64
deriving DecidableEq, Inhabited, Repr

namespace Double

def infinityMagnitude : Nat := 0x7FF0000000000000

def ofMagnitude (negative : Bool) (magnitude : Nat) : Double :=
  ⟨UInt64.ofNat (if negative then 0x8000000000000000 + magnitude else magnitude)⟩

def nan : Double := ⟨0x7FF8000000000000⟩
def zero (negative : Bool) : Double := ofMagnitude negative 0
def infinity (negative : Bool) : Double := ofMagnitude negative infinityMagnitude

def negative (x : Double) : Bool := 0x8000000000000000 ≤ x.bits.toNat
def magnitude (x : Double) : Nat := x.bits.toNat % 0x8000000000000000
def isNaN (x : Double) : Bool := infinityMagnitude < x.magnitude
def isInfinite (x : Double) : Bool := x.magnitude == infinityMagnitude
def isFinite (x : Double) : Bool := x.magnitude < infinityMagnitude
def isZero (x : Double) : Bool := x.magnitude == 0

/-- Order key of a number that is not NaN; both zeros have rank 0. -/
def rank (x : Double) : Int := if x.negative then -(x.magnitude : Int) else x.magnitude

/-- Numerical comparison; NaN compares with nothing. -/
def compare? (x y : Double) : Option Ordering :=
  if x.isNaN || y.isNaN then none else some (compare x.rank y.rank)

def same (x y : Double) : Bool := x.compare? y == some .eq

def less (x y : Double) : Bool := x.compare? y == some .lt
def atMost (x y : Double) : Bool := (x.compare? y).any (·.isLE)

/-- A finite magnitude is `significand * 2 ^ exponent`. -/
def significand (x : Double) : Nat :=
  let fraction := x.magnitude % 0x10000000000000
  if x.magnitude / 0x10000000000000 = 0 then fraction else 0x10000000000000 + fraction

def exponent (x : Double) : Int := (max (x.magnitude / 0x10000000000000) 1 : Nat) - 1075

/-- The quotient rounded to the nearest integer, a tie to the even one. -/
def divideToEven (num den : Nat) : Nat :=
  let quotient := num / den
  let twice := 2 * (num % den)
  if twice < den then quotient
  else if den < twice then quotient + 1
  else quotient + quotient % 2

def scaledToEven (num den : Nat) (exponent : Int) : Nat :=
  divideToEven (num * Nat.pow 2 (-exponent).toNat) (den * Nat.pow 2 exponent.toNat)

/-- The double nearest to `num / den`, for a positive `den`. -/
def ofRatio (negative : Bool) (num den : Nat) : Double :=
  if num = 0 then zero negative
  else
    let low : Int := max ((num.log2 : Int) - den.log2 - 53) (-1074)
    let exponent :=
      if num * Nat.pow 2 (-low).toNat / (den * Nat.pow 2 low.toNat) < 0x20000000000000 then low
      else low + 1
    let magnitude := (exponent + 1074).toNat * 0x10000000000000 + scaledToEven num den exponent
    ofMagnitude negative (min magnitude infinityMagnitude)

def ofScaled (negative : Bool) (count : Nat) (exponent : Int) : Double :=
  ofRatio negative (count * Nat.pow 2 exponent.toNat) (Nat.pow 2 (-exponent).toNat)

def ofInt (i : Int) : Double := ofRatio (i < 0) i.natAbs 1

def neg (x : Double) : Double := ofMagnitude (!x.negative) x.magnitude

/-- The signed count of `2 ^ exponent` in a finite number. -/
def countAt (x : Double) (exponent : Int) : Int :=
  let count : Int := (x.significand * Nat.pow 2 (x.exponent - exponent).toNat : Nat)
  if x.negative then -count else count

/-- An exact sum of zero is positive unless both terms are negative zeros. -/
def add (x y : Double) : Double :=
  if x.isNaN || y.isNaN then nan
  else if x.isInfinite then (if y.isInfinite && x.negative != y.negative then nan else x)
  else if y.isInfinite then y
  else
    let exponent := min x.exponent y.exponent
    let total := x.countAt exponent + y.countAt exponent
    if total = 0 then zero (x.negative && y.negative)
    else ofScaled (total < 0) total.natAbs exponent

def sub (x y : Double) : Double := x.add y.neg

def mulFinite (x y : Double) : Double :=
  ofScaled (x.negative != y.negative) (x.significand * y.significand) (x.exponent + y.exponent)

def divFinite (x y : Double) : Double :=
  let shift := x.exponent - y.exponent
  ofRatio (x.negative != y.negative) (x.significand * Nat.pow 2 shift.toNat)
    (y.significand * Nat.pow 2 (-shift).toNat)

def smaller (x y : Double) : Double :=
  if y.isNaN then x else if x.isNaN then y else if y.less x then y else x

def larger (x y : Double) : Double :=
  if y.isNaN then x else if x.isNaN then y else if x.less y then y else x

/-- The double nearest to `digits * 10 ^ exponent`, where `digits` has `count`
digits. The bounds keep the exact powers small: beyond them the result is an
infinity or a zero whatever the digits are. -/
def ofDecimal (negative : Bool) (digits count : Nat) (exponent : Int) : Double :=
  if digits = 0 then zero negative
  else if 400 < (count : Int) + exponent then infinity negative
  else if (count : Int) + exponent < -400 then zero negative
  else ofRatio negative (digits * Nat.pow 10 exponent.toNat) (Nat.pow 10 (-exponent).toNat)

end Double
end AuditLog
