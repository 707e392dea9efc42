import AuditLog.Number.Shortest

/-! Doubles as text. Displayed numbers are always positional and drop a zero
fraction; stored numbers keep `.0` and take an exponent when very large or small.
Reading accepts a sign, digits with a point, an exponent, and the words for
infinity and NaN. -/
namespace AuditLog.Double

def zeros (n : Nat) : List Char := List.replicate n '0'

/-- Positional digits, without a point for an integer. -/
def Decimal.positional (d : Decimal) : List Char :=
  let point : Int := d.digits.length + d.exponent
  if 0 ≤ d.exponent then d.digits ++ zeros d.exponent.toNat
  else if 0 < point then d.digits.take point.toNat ++ '.' :: d.digits.drop point.toNat
  else ['0', '.'] ++ zeros (-point).toNat ++ d.digits

/-- One digit before the point, and an exponent that always has a sign. -/
def Decimal.scientific (d : Decimal) : List Char :=
  let power : Int := d.digits.length + d.exponent - 1
  let fraction := if d.digits.length ≤ 1 then [] else '.' :: d.digits.drop 1
  d.digits.take 1 ++ fraction ++
    ['e', if power < 0 then '-' else '+'] ++ Text.decimal power.natAbs

def withSign (x : Double) (text : List Char) : List Char :=
  if x.negative then '-' :: text else text

def display (x : Double) : List Char :=
  if x.isNaN then ['N', 'a', 'N']
  else if x.isInfinite then x.withSign ['i', 'n', 'f']
  else if x.isZero then x.withSign ['0']
  else x.withSign (x.shortest .up).positional

/-- A finite number in stored form: positional while the decimal point stands at
most 16 places after the first digit or fewer than 5 places before it. -/
def stored (x : Double) : List Char :=
  if x.isZero then x.withSign ['0', '.', '0']
  else
    let d := x.shortest .even
    let point : Int := d.digits.length + d.exponent
    x.withSign <|
      if point ≤ -5 || 16 < point then d.scientific
      else if 0 ≤ d.exponent then d.positional ++ ['.', '0']
      else d.positional

/-- An exponent part after its letter: a sign and at least one digit. -/
def exponentOf? (cs : List Char) : Option Int :=
  match cs with
  | '-' :: rest => (Text.natOfDigits? rest).map fun n => -(n : Int)
  | '+' :: rest => (Text.natOfDigits? rest).map Int.ofNat
  | rest => (Text.natOfDigits? rest).map Int.ofNat

/-- Digits with an optional point and exponent; a digit stands before or after the
point. -/
def unsigned? (negative : Bool) (cs : List Char) : Option Double := do
  let whole := cs.takeWhile Text.isDigit
  let rest := cs.dropWhile Text.isDigit
  let (fraction, rest) := match rest with
    | '.' :: tail => (tail.takeWhile Text.isDigit, tail.dropWhile Text.isDigit)
    | _ => ([], rest)
  let digits := whole ++ fraction
  if digits.isEmpty then none
  let power ← match rest with
    | [] => some 0
    | e :: tail => if e == 'e' || e == 'E' then exponentOf? tail else none
  let significant := digits.dropWhile (· == '0')
  return ofDecimal negative (Text.decimalValue significant) significant.length
    (power - fraction.length)

def ofText? (s : String) : Option Double :=
  let (negative, cs) := match s.toList with
    | '-' :: rest => (true, rest)
    | '+' :: rest => (false, rest)
    | cs => (false, cs)
  let word := cs.map Char.toLower
  if word == ['n', 'a', 'n'] then some nan
  else if word == "inf".toList || word == "infinity".toList then some (infinity negative)
  else unsigned? negative cs

end AuditLog.Double
