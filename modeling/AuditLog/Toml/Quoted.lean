import AuditLog.Text.Digits
import AuditLog.Toml.Layout

/-! TOML strings of all four kinds: within a line or over several, and with or without
backslash escapes. -/
namespace AuditLog.Toml

def codePoint? (width : Nat) : Reader Char := fun cs => do
  let digits := cs.take width
  if digits.length < width then none
  let n ← Text.natOfHex? digits
  if n < 0xD800 || (0xDFFF < n && n < 0x110000) then return (Char.ofNat n, cs.drop width)
  else none

def escape? : Reader Char
  | 'b' :: rest => some ('\x08', rest)
  | 't' :: rest => some ('\t', rest)
  | 'n' :: rest => some ('\n', rest)
  | 'f' :: rest => some ('\x0c', rest)
  | 'r' :: rest => some ('\r', rest)
  | '"' :: rest => some ('"', rest)
  | '\\' :: rest => some ('\\', rest)
  | 'u' :: rest => codePoint? 4 rest
  | 'U' :: rest => codePoint? 8 rest
  | _ => none

def basic? : Nat → Reader (List Char)
  | 0, _ => none
  | _ + 1, [] => none
  | steps + 1, c :: rest =>
    if c == '"' then some ([], rest)
    else if c == '\\' then do
      let (d, rest) ← escape? rest
      let (more, rest) ← basic? steps rest
      return (d :: more, rest)
    else if isTextChar c then do
      let (more, rest) ← basic? steps rest
      return (c :: more, rest)
    else none

def literal? : Reader (List Char) := fun cs =>
  let body := cs.takeWhile fun c => c != '\'' && isTextChar c
  match cs.drop body.length with
  | '\'' :: rest => some (body, rest)
  | _ => none

/-- Up to two quotes may stand before the three that close a long string. -/
def closing? (quote : Char) : Reader (List Char) := fun cs =>
  let run := (cs.take 5).takeWhile (· == quote)
  if 3 ≤ run.length then some (run.drop 3, cs.drop run.length) else none

/-- After a backslash: an end of line, with all blanks and ends of lines that follow. -/
def continuation? (cs : List Char) : Option (List Char) :=
  (newline? (skipSpace cs)).map fun rest => skipLines id (rest.length + 1) rest

/-- A long string up to its closing quotes; backslashes count between double quotes. -/
def long? (quote : Char) : Nat → Reader (List Char)
  | 0, _ => none
  | steps + 1, cs =>
    match closing? quote cs, newline? cs, cs with
    | some found, _, _ => some found
    | none, some rest, _ => (long? quote steps rest).map fun (more, rest) => ('\n' :: more, rest)
    | none, none, [] => none
    | none, none, c :: rest =>
      if c == '\\' && quote == '"' then
        match continuation? rest with
        | some rest => long? quote steps rest
        | none => do
          let (d, rest) ← escape? rest
          let (more, rest) ← long? quote steps rest
          return (d :: more, rest)
      else if isTextChar c then do
        let (more, rest) ← long? quote steps rest
        return (c :: more, rest)
      else none

/-- The body of a long string; an end of line right after its opening is dropped. -/
def longBody? (quote : Char) : Reader String := fun cs =>
  let body := (newline? cs).getD cs
  (long? quote (body.length + 1) body).map fun (chars, rest) => (String.ofList chars, rest)

def short? : Reader String
  | '"' :: rest => (basic? (rest.length + 1) rest).map fun (cs, rest) => (String.ofList cs, rest)
  | '\'' :: rest => (literal? rest).map fun (cs, rest) => (String.ofList cs, rest)
  | _ => none

def string? : Reader String
  | '"' :: '"' :: '"' :: rest => longBody? '"' rest
  | '\'' :: '\'' :: '\'' :: rest => longBody? '\'' rest
  | cs => short? cs

end AuditLog.Toml
