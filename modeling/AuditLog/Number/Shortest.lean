import AuditLog.Number.Double

/-! The shortest decimal that reads back as a given double. A decimal reads back
when it lies in the interval of numbers that round to the double; grids of one,
two, up to seventeen digits are tried in turn, and of the two grid points next
to the double the nearer one inside the interval is taken. -/
namespace AuditLog.Double

inductive Tie where
  | even
  | up
deriving DecidableEq

structure Decimal where
  digits : List Char
  exponent : Int
deriving DecidableEq

/-- Counts of `2 ^ (exponent - 2)`: the lower end, the double and the upper end of
the interval of numbers that round to a positive finite double. -/
def quarterInterval (x : Double) : Nat × Nat × Nat :=
  let m := x.significand
  let atBinade := m == 0x10000000000000 && 0x20000000000000 ≤ x.magnitude
  (4 * m - (if atBinade then 1 else 2), 4 * m, 4 * m + 2)

/-- The two factors by which a count of `10 ^ p` and a count of `2 ^ q` are compared
exactly. -/
def commonScale (p q : Int) : Nat × Nat :=
  (Nat.pow 10 p.toNat * Nat.pow 2 (-q).toNat, Nat.pow 2 q.toNat * Nat.pow 10 (-p).toNat)

/-- The ends of the interval belong to it when the significand is even. -/
def readsBack (x : Double) (count : Nat) (p : Int) : Bool :=
  let (ten, two) := commonScale p (x.exponent - 2)
  let (lower, _, upper) := quarterInterval x
  if x.significand % 2 == 0 then lower * two ≤ count * ten && count * ten ≤ upper * two
  else lower * two < count * ten && count * ten < upper * two

def nearestOnGrid? (tie : Tie) (x : Double) (p : Int) : Option Nat :=
  let (ten, two) := commonScale p (x.exponent - 2)
  let exact := 4 * x.significand * two
  let below := exact / ten
  let above := below + 1
  match readsBack x below p, readsBack x above p with
  | false, false => none
  | true, false => some below
  | false, true => some above
  | true, true =>
    let up := above * ten - exact
    let down := exact - below * ten
    if down < up then some below
    else if up < down then some above
    else match tie with
      | .up => some above
      | .even => if below % 2 == 0 then some below else some above

/-- The exponent of the leading decimal digit of `num / den`. -/
def leadingExponent (num den : Nat) : Int :=
  if den ≤ num then ((Text.decimal (num / den)).length : Int) - 1
  else -((Text.decimal ((den - 1) / num)).length : Int)

def shortestFrom (tie : Tie) (x : Double) : Nat → Int → Nat × Int
  | 0, p => ((nearestOnGrid? tie x p).getD 0, p)
  | steps + 1, p =>
    match nearestOnGrid? tie x p with
    | some count => (count, p)
    | none => shortestFrom tie x steps (p - 1)

/-- The shortest decimal of the magnitude of a finite number other than zero,
without trailing zeros. -/
def shortest (tie : Tie) (x : Double) : Decimal :=
  let q := x.exponent
  let leading := leadingExponent (x.significand * Nat.pow 2 q.toNat) (Nat.pow 2 (-q).toNat)
  let (count, p) := shortestFrom tie x 16 leading
  let reversed := (Text.decimal count).reverse
  let kept := reversed.dropWhile (· == '0')
  ⟨kept.reverse, p + (reversed.length - kept.length : Nat)⟩

end AuditLog.Double
