/-! Numbers in text: decimal and hexadecimal digits, signs and the range of a
machine word. Readers take the whole text or nothing. -/
namespace AuditLog.Text

def isDigit (c : Char) : Bool := '0' ≤ c && c ≤ '9'

def digitValue (c : Char) : Nat := c.toNat - '0'.toNat

def decimalValue (cs : List Char) : Nat := Nat.ofDigitChars 10 cs 0

/-- A non-empty run of decimal digits, of any length. -/
def natOfDigits? (cs : List Char) : Option Nat :=
  if !cs.isEmpty && cs.all isDigit then some (decimalValue cs) else none

def hexValue? (c : Char) : Option Nat :=
  let n := c.toNat
  if '0' ≤ c && c ≤ '9' then some (n - 48)
  else if 'a' ≤ c && c ≤ 'f' then some (n - 87)
  else if 'A' ≤ c && c ≤ 'F' then some (n - 55)
  else none

def natOfHex? (cs : List Char) : Option Nat :=
  if cs.isEmpty then none
  else cs.foldl (fun total c => do return 16 * (← total) + (← hexValue? c)) (some 0)

/-- An unsigned number below `bound`, with an optional plus sign. -/
def natBelow? (bound : Nat) (s : String) : Option Nat :=
  let digits := match s.toList with
    | '+' :: rest => rest
    | cs => cs
  (natOfDigits? digits).filter (· < bound)

def int64? (s : String) : Option Int64 :=
  let signed := match s.toList with
    | '-' :: rest => (natOfDigits? rest).map fun n => -(n : Int)
    | '+' :: rest => (natOfDigits? rest).map Int.ofNat
    | cs => (natOfDigits? cs).map Int.ofNat
  (signed.filter fun i => -0x8000000000000000 ≤ i && i < 0x8000000000000000).map Int64.ofInt

def decimal (n : Nat) : List Char := Nat.toDigits 10 n

def signed (i : Int) : List Char :=
  if i < 0 then '-' :: decimal i.natAbs else decimal i.natAbs

/-- At least `width` digits, filled up with zeros in front. -/
def padded (width n : Nat) : List Char :=
  let digits := decimal n
  List.replicate (width - digits.length) '0' ++ digits

def hexDigits (n : Nat) : List Char := Nat.toDigits 16 n

def paddedHex (width n : Nat) : List Char :=
  let digits := hexDigits n
  List.replicate (width - digits.length) '0' ++ digits

end AuditLog.Text
