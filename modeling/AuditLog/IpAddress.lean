import AuditLog.Text.Digits
import AuditLog.Text.Split

/-! Network addresses of either family. Reading takes the whole text; writing gives
the one canonical form, in which the longest run of zero groups is left out. -/
namespace AuditLog

inductive IpAddress where
  | v4 (octets : List Nat)
  | v6 (groups : List Nat)
deriving DecidableEq

namespace IpAddress

def octet? (cs : List Char) : Option (Nat × List Char) := do
  let run := cs.takeWhile Text.isDigit
  if run.isEmpty || 3 < run.length then none
  if run.head? == some '0' && 1 < run.length then none
  let n := Text.decimalValue run
  if 255 < n then none
  return (n, cs.drop run.length)

def dot? : List Char → Option (List Char)
  | '.' :: rest => some rest
  | _ => none

def quad? (cs : List Char) : Option (List Nat × List Char) := do
  let (a, cs) ← octet? cs
  let (b, cs) ← octet? (← dot? cs)
  let (c, cs) ← octet? (← dot? cs)
  let (d, cs) ← octet? (← dot? cs)
  return ([a, b, c, d], cs)

def group? (cs : List Char) : Option (Nat × List Char) := do
  let run := cs.takeWhile fun c => (Text.hexValue? c).isSome
  if run.isEmpty || 4 < run.length then none
  return (← Text.natOfHex? run, cs.drop run.length)

def colon? : List Char → Option (List Char)
  | ':' :: rest => some rest
  | _ => none

/-- At most `room` groups separated by colons, the last two of which may be written as
a dotted quad, and what follows them. The flag says whether a quad ended the run. -/
def groups (first : Bool) : Nat → List Char → List Nat × Bool × List Char
  | 0, cs => ([], false, cs)
  | room + 1, cs =>
    match if first then some cs else colon? cs with
    | none => ([], false, cs)
    | some start =>
      match if 1 ≤ room then quad? start else none with
      | some ([a, b, c, d], rest) => ([256 * a + b, 256 * c + d], true, rest)
      | _ =>
        match group? start with
        | none => ([], false, cs)
        | some (g, rest) =>
          let (more, quad, rest) := groups false room rest
          (g :: more, quad, rest)

def v6? (cs : List Char) : Option (List Nat × List Char) :=
  let (front, quad, rest) := groups true 8 cs
  if front.length = 8 then some (front, rest)
  else if quad then none
  else match rest with
    | ':' :: ':' :: rest =>
      let (back, _, rest) := groups true (7 - front.length) rest
      some (front ++ List.replicate (8 - front.length - back.length) 0 ++ back, rest)
    | _ => none

def parse? (s : String) : Option IpAddress :=
  match quad? s.toList with
  | some (octets, []) => some (.v4 octets)
  | _ =>
    match v6? s.toList with
    | some (groups, []) => some (.v6 groups)
    | _ => none

def quadText (octets : List Nat) : List Char :=
  Text.joinWith ['.'] (octets.map Text.decimal)

def groupsText (groups : List Nat) : List Char :=
  Text.joinWith [':'] (groups.map Text.hexDigits)

/-- Start and length of the first longest run of zeros, counted from `index`. -/
def longestZeros (index : Nat) : List Nat → Nat × Nat
  | [] => (index, 0)
  | g :: rest =>
    let run := ((g :: rest).takeWhile (· == 0)).length
    let later := longestZeros (index + 1) rest
    if later.2 ≤ run then (index, run) else later

def text (address : IpAddress) : String :=
  String.ofList <| match address with
    | .v4 octets => quadText octets
    | .v6 [0, 0, 0, 0, 0, 0xFFFF, high, low] =>
      "::ffff:".toList ++ quadText [high / 256, high % 256, low / 256, low % 256]
    | .v6 groups =>
      let (start, length) := longestZeros 0 groups
      if 1 < length then
        groupsText (groups.take start) ++ [':', ':'] ++ groupsText (groups.drop (start + length))
      else groupsText groups

end IpAddress
end AuditLog
