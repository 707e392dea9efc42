/-! Blanks, comments and ends of lines between the parts of a TOML text. A reader takes
something from the front of a text and returns the rest. -/
namespace AuditLog.Toml

abbrev Reader (α : Type) := List Char → Option (α × List Char)

def isSpace (c : Char) : Bool := c == ' ' || c == '\t'

def skipSpace (cs : List Char) : List Char := cs.dropWhile isSpace

def isTextChar (c : Char) : Bool := c == '\t' || (0x20 ≤ c.toNat && c.toNat != 0x7F)

def newline? : List Char → Option (List Char)
  | '\n' :: rest => some rest
  | '\r' :: '\n' :: rest => some rest
  | _ => none

def skipComment : List Char → List Char
  | '#' :: rest => rest.dropWhile isTextChar
  | cs => cs

/-- The rest of a line may hold blanks and a comment only. -/
def endOfLine? (cs : List Char) : Option (List Char) :=
  match skipComment (skipSpace cs) with
  | [] => some []
  | rest => newline? rest

/-- Drops blanks, ends of lines and what `comment` drops, over at most `steps` lines. -/
def skipLines (comment : List Char → List Char) : Nat → List Char → List Char
  | 0, cs => cs
  | steps + 1, cs =>
    let rest := comment (skipSpace cs)
    match newline? rest with
    | some rest => skipLines comment steps rest
    | none => rest

def skipBlank (cs : List Char) : List Char := skipLines skipComment (cs.length + 1) cs

end AuditLog.Toml
