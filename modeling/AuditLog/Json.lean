import AuditLog.Number.Double
import AuditLog.Text.Digits

/-! JSON text as a tree. The reader takes one value with blanks around it, nested at
most `deepest` levels. Integers of a machine word stay exact; any other number is
its first digits that fit a word, scaled by a power of ten in double arithmetic,
which may differ from the nearest double in the last place. -/
namespace AuditLog

inductive Json where
  | null
  | bool (b : Bool)
  | int (i : Int)
  | double (x : Double)
  | text (s : String)
  | array (items : List Json)
  | object (members : List (String × Json))
deriving Inhabited

namespace Json

def escapedChar (c : Char) : List Char :=
  if c == '"' then ['\\', '"']
  else if c == '\\' then ['\\', '\\']
  else if c == '\x08' then ['\\', 'b']
  else if c == '\x0c' then ['\\', 'f']
  else if c == '\n' then ['\\', 'n']
  else if c == '\r' then ['\\', 'r']
  else if c == '\t' then ['\\', 't']
  else if c.toNat < 0x20 then ['\\', 'u'] ++ Text.paddedHex 4 c.toNat
  else [c]

def quoted (s : String) : List Char := '"' :: s.toList.flatMap escapedChar ++ ['"']

def isBlank (c : Char) : Bool := c == ' ' || c == '\n' || c == '\r' || c == '\t'

def skip (cs : List Char) : List Char := cs.dropWhile isBlank

def unit? : List Char → Option (Nat × List Char)
  | a :: b :: c :: d :: rest => (Text.natOfHex? [a, b, c, d]).map fun n => (n, rest)
  | _ => none

def isHigh (unit : Nat) : Bool := 0xD800 ≤ unit && unit ≤ 0xDBFF
def isLow (unit : Nat) : Bool := 0xDC00 ≤ unit && unit ≤ 0xDFFF

/-- The code point after `\u`, which two surrogates may spell together. -/
def codePoint? (cs : List Char) : Option (Char × List Char) := do
  let (unit, rest) ← unit? cs
  if isLow unit then none
  else if isHigh unit then
    match rest with
    | '\\' :: 'u' :: rest =>
      let (low, rest) ← unit? rest
      if isLow low then
        return (Char.ofNat (0x10000 + (unit - 0xD800) * 0x400 + (low - 0xDC00)), rest)
      else none
    | _ => none
  else return (Char.ofNat unit, rest)

/-- What a backslash and the characters after it stand for. -/
def escape? : List Char → Option (Char × List Char)
  | '"' :: rest => some ('"', rest)
  | '\\' :: rest => some ('\\', rest)
  | '/' :: rest => some ('/', rest)
  | 'b' :: rest => some ('\x08', rest)
  | 'f' :: rest => some ('\x0c', rest)
  | 'n' :: rest => some ('\n', rest)
  | 'r' :: rest => some ('\r', rest)
  | 't' :: rest => some ('\t', rest)
  | 'u' :: rest => codePoint? rest
  | _ => none

/-- The characters of a string up to its closing quote, for at most `steps` of them. -/
def characters? : Nat → List Char → Option (List Char × List Char)
  | 0, _ => none
  | _ + 1, [] => none
  | _ + 1, '"' :: rest => some ([], rest)
  | steps + 1, '\\' :: rest => do
    let (c, rest) ← escape? rest
    let (more, rest) ← characters? steps rest
    return (c :: more, rest)
  | steps + 1, c :: rest =>
    if c.toNat < 0x20 then none
    else do
      let (more, rest) ← characters? steps rest
      return (c :: more, rest)

def string? (cs : List Char) : Option (String × List Char) :=
  (characters? (cs.length + 1) cs).map fun (chars, rest) => (String.ofList chars, rest)

/-- Appends digits to a number while it stays below `2 ^ 64`, and counts those taken. -/
def gather (total : Nat) : List Char → Nat × Nat
  | [] => (total, 0)
  | c :: rest =>
    let next := 10 * total + Text.digitValue c
    if next < 0x10000000000000000 then
      let (sum, taken) := gather next rest
      (sum, taken + 1)
    else (total, 0)

def powerOfTen (n : Nat) : Double := Double.ofDecimal false 1 1 n

/-- A count of powers of ten, in double arithmetic; none if it is too large. -/
def scaled? (negative : Bool) (count : Nat) (exponent : Int) : Option Double :=
  let x := Double.ofRatio false count 1
  let magnitude :=
    if x.isZero then some x
    else if 308 < exponent then none
    else if 0 ≤ exponent then
      let product := x.mulFinite (powerOfTen exponent.toNat)
      if product.isFinite then some product else none
    else if -308 ≤ exponent then some (x.divFinite (powerOfTen (-exponent).toNat))
    else if -616 ≤ exponent then
      some ((x.divFinite (powerOfTen 308)).divFinite (powerOfTen (-exponent - 308).toNat))
    else some (Double.zero false)
  magnitude.map fun x => if negative then x.neg else x

def fractionDigits? : List Char → Option (List Char × List Char)
  | '.' :: rest =>
    let run := rest.takeWhile Text.isDigit
    if run.isEmpty then none else some (run, rest.drop run.length)
  | cs => some ([], cs)

/-- The exponent after its letter, zero without one. -/
def exponent? : List Char → Option (Int × List Char)
  | [] => some (0, [])
  | c :: rest =>
    if c == 'e' || c == 'E' then
      let (negative, rest) := match rest with
        | '-' :: tail => (true, tail)
        | '+' :: tail => (false, tail)
        | _ => (false, rest)
      let run := rest.takeWhile Text.isDigit
      if run.isEmpty then none
      else
        let n : Int := Text.decimalValue run
        some (if negative then -n else n, rest.drop run.length)
    else some (0, c :: rest)

/-- A number after its sign. Without a point and an exponent it is an integer where a
signed or, if positive, an unsigned word holds it. -/
def number? (negative : Bool) (cs : List Char) : Option (Json × List Char) := do
  let whole := cs.takeWhile Text.isDigit
  if whole.isEmpty || (1 < whole.length && whole.head? == some '0') then none
  let after := cs.drop whole.length
  let (fraction, afterFraction) ← fractionDigits? after
  let (exponent, rest) ← exponent? afterFraction
  let (count, taken) := gather 0 whole
  let dropped : Int := (whole.length - taken : Nat)
  if after.length = rest.length && dropped = 0 then
    if !negative then return (.int count, rest)
    else if 1 ≤ count && count ≤ 0x8000000000000000 then return (.int (-count), rest)
    else return (.double (Double.ofRatio false count 1).neg, rest)
  else
    let (count, takenAfter) := gather count fraction
    let x ← scaled? negative count (dropped - takenAfter + exponent)
    return (.double x, rest)

/-- One or more items, separated by commas and closed by `close`. -/
def sequence? {α : Type} (item : List Char → Option (α × List Char)) (close : Char) :
    Nat → List Char → Option (List α × List Char)
  | 0, _ => none
  | steps + 1, cs => do
    let (x, rest) ← item cs
    match skip rest with
    | [] => none
    | c :: rest =>
      if c == close then return ([x], rest)
      else if c == ',' then
        let (xs, rest) ← sequence? item close steps rest
        return (x :: xs, rest)
      else none

def enclosed? {α : Type} (item : List Char → Option (α × List Char)) (close : Char)
    (cs : List Char) : Option (List α × List Char) :=
  match skip cs with
  | [] => none
  | c :: rest => if c == close then some ([], rest) else sequence? item close cs.length cs

def member? (value : List Char → Option (Json × List Char)) (cs : List Char) :
    Option ((String × Json) × List Char) :=
  match skip cs with
  | '"' :: rest => do
    let (name, rest) ← string? rest
    match skip rest with
    | ':' :: rest =>
      let (v, rest) ← value rest
      return ((name, v), rest)
    | _ => none
  | _ => none

def word? (word : String) (v : Json) (cs : List Char) : Option (Json × List Char) :=
  if word.toList.isPrefixOf cs then some (v, cs.drop word.length) else none

/-- A value, in which brackets are nested at most `depth` deep. -/
def value? : Nat → List Char → Option (Json × List Char)
  | depth, cs =>
    match skip cs with
    | [] => none
    | c :: rest =>
      if c == '"' then (string? rest).map fun (s, rest) => (.text s, rest)
      else if c == '[' then
        match depth with
        | 0 => none
        | depth + 1 =>
          (enclosed? (value? depth) ']' rest).map fun (items, rest) => (.array items, rest)
      else if c == '\x7b' then
        match depth with
        | 0 => none
        | depth + 1 =>
          (enclosed? (member? (value? depth)) '\x7d' rest).map fun (members, rest) =>
            (.object members, rest)
      else if c == '-' then number? true rest
      else if Text.isDigit c then number? false (c :: rest)
      else if c == 'n' then word? "null" .null (c :: rest)
      else if c == 't' then word? "true" (.bool true) (c :: rest)
      else if c == 'f' then word? "false" (.bool false) (c :: rest)
      else none
termination_by structural depth => depth

def deepest : Nat := 127

def parse? (s : String) : Option Json :=
  match value? deepest s.toList with
  | some (v, rest) => if (skip rest).isEmpty then some v else none
  | none => none

end Json
end AuditLog
