import AuditLog.Number.Notation
import AuditLog.Text.Split
import AuditLog.Toml
import AuditLog.Toml.Layout

/-! TOML numbers: signed 64-bit integers, of which unsigned ones may be in base 16, 8 or
2, and doubles. Digits may be grouped by single underscores. A decimal number that is
too large for a double is refused when it is positive. -/
namespace AuditLog.Toml

/-- Digits of a base, less the single underscores between them. -/
def digits? (base : Nat) : Reader (List Char) := fun cs =>
  let isBaseDigit (c : Char) : Bool := (Text.hexValue? c).any (· < base)
  let run := cs.takeWhile fun c => isBaseDigit c || c == '_'
  let pieces := Text.splitWhere (· == '_') run
  if pieces.all (!·.isEmpty) then some (pieces.flatten, cs.drop run.length) else none

def wholeDigits? : Reader (List Char)
  | '0' :: rest => some (['0'], rest)
  | cs => digits? 10 cs

def fractionDigits? : Reader (Option (List Char))
  | '.' :: rest => (digits? 10 rest).map fun (run, rest) => (some run, rest)
  | cs => some (none, cs)

/-- The sign and digits of an exponent after its letter, none without one. -/
def exponentDigits? : Reader (Option (List Char))
  | [] => some (none, [])
  | c :: rest =>
    if c == 'e' || c == 'E' then
      let sign := rest.takeWhile fun c => c == '+' || c == '-'
      if 1 < sign.length then none
      else (digits? 10 (rest.drop sign.length)).map fun (run, rest) => (some (sign ++ run), rest)
    else some (none, c :: rest)

def sign : List Char → Bool × List Char
  | '-' :: rest => (true, rest)
  | '+' :: rest => (false, rest)
  | cs => (false, cs)

def ofInt? (i : Int) : Option Toml := if -0x8000000000000000 ≤ i && i < 0x8000000000000000 then some (.int i) else none

/-- An integer in another base, after the letter that names it. -/
def based? (base : Nat) : Reader Toml := fun cs => do
  let (run, rest) ← digits? base cs
  let n := run.foldl (fun n c => base * n + (Text.hexValue? c).getD 0) 0
  return (← ofInt? n, rest)

/-- The double with these digits, unless it is positive and too large. -/
def ofDecimal? (negative : Bool) (whole : List Char) (fraction exponent : Option (List Char)) :
    Option Toml := do
  let power := match exponent with
    | some run => 'e' :: run
    | none => []
  let x ← Double.unsigned? negative (whole ++ '.' :: fraction.getD [] ++ power)
  if x = .infinity false then none else some (.double x)

/-- A number in base 10. It is an integer if it has neither a fraction nor an exponent. -/
def decimal? (negative : Bool) : Reader Toml := fun cs => do
  let (whole, rest) ← wholeDigits? cs
  let (fraction, rest) ← fractionDigits? rest
  let (exponent, rest) ← exponentDigits? rest
  if fraction.isNone && exponent.isNone then
    let n : Int := Text.decimalValue whole
    return (← ofInt? (if negative then -n else n), rest)
  else return (← ofDecimal? negative whole fraction exponent, rest)

def number? : Reader Toml
  | '0' :: 'x' :: rest => based? 16 rest
  | '0' :: 'o' :: rest => based? 8 rest
  | '0' :: 'b' :: rest => based? 2 rest
  | cs =>
    let (negative, body) := sign cs
    match body with
    | 'i' :: 'n' :: 'f' :: rest => some (.double (.infinity negative), rest)
    | 'n' :: 'a' :: 'n' :: rest => some (.double .nan, rest)
    | _ => decimal? negative body

end AuditLog.Toml
