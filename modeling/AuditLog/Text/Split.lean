/-! Cutting text at blanks and separators. A blank is any character with the
Unicode property White_Space. Pieces are cut on lists of characters, so nothing
here depends on byte positions. -/
namespace AuditLog.Text

def isBlank (c : Char) : Bool :=
  let n := c.toNat
  (9 ≤ n && n ≤ 13) || n == 0x20 || n == 0x85 || n == 0xA0 || n == 0x1680 ||
    (0x2000 ≤ n && n ≤ 0x200A) || n == 0x2028 || n == 0x2029 || n == 0x202F ||
    n == 0x205F || n == 0x3000

/-- Cuts at every character that satisfies `p`; adjacent cuts give empty pieces. -/
def splitWhere (p : Char → Bool) : List Char → List (List Char)
  | [] => [[]]
  | c :: rest =>
    if p c then [] :: splitWhere p rest
    else match splitWhere p rest with
      | [] => [[c]]
      | piece :: pieces => (c :: piece) :: pieces

theorem splitWhere_ne_nil (p : Char → Bool) (cs : List Char) : splitWhere p cs ≠ [] := by
  cases cs with
  | nil => simp [splitWhere]
  | cons c rest =>
    simp only [splitWhere]
    split
    · simp
    · split <;> simp

def trimStart (cs : List Char) : List Char := cs.dropWhile isBlank

def trimList (cs : List Char) : List Char := (trimStart (trimStart cs).reverse).reverse

def trim (s : String) : String := String.ofList (trimList s.toList)

def split (separator : Char) (s : String) : List String :=
  (splitWhere (· == separator) s.toList).map String.ofList

def words (s : String) : List String :=
  ((splitWhere isBlank s.toList).filter (!·.isEmpty)).map String.ofList

/-- Cuts at the first character that satisfies `p`, which is dropped. -/
def cutWhere (p : Char → Bool) (cs : List Char) : Option (List Char × List Char) :=
  match cs.dropWhile (!p ·) with
  | [] => none
  | _ :: rest => some (cs.takeWhile (!p ·), rest)

def cutFirst (separator : Char) (s : String) : Option (String × String) :=
  (cutWhere (· == separator) s.toList).map fun (before, after) =>
    (String.ofList before, String.ofList after)

def values (s : String) : List String :=
  ((split ',' s).map trim).filter (!·.isEmpty)

/-- Only the letters A to Z have another case here. -/
def lower (s : String) : String := String.ofList (s.toList.map Char.toLower)

def sameLetters (a b : String) : Bool := lower a == lower b

def joinWith (separator : List Char) : List (List Char) → List Char
  | [] => []
  | [piece] => piece
  | piece :: next :: pieces => piece ++ separator ++ joinWith separator (next :: pieces)

end AuditLog.Text
