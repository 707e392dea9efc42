import AuditLog.Text.Digits

/-! Player identifiers: 128 bits, written as hexadecimal digits in groups of 8, 4, 4,
4 and 12. Reading also accepts the digits alone, braces around the groups, and the
groups as a URN; letters may be of either case. -/
namespace AuditLog

structure Uuid where
  bits : BitVec 128
deriving DecidableEq, Inhabited

namespace Uuid

def hyphenated (digits : List Char) : List Char :=
  digits.take 8 ++ '-' :: (digits.drop 8).take 4 ++ '-' :: (digits.drop 12).take 4 ++
    '-' :: (digits.drop 16).take 4 ++ '-' :: digits.drop 20

def text (id : Uuid) : String := String.ofList (hyphenated (Text.paddedHex 32 id.bits.toNat))

def ofDigits? (digits : List Char) : Option Uuid :=
  if digits.length = 32 then (Text.natOfHex? digits).map fun n => ⟨BitVec.ofNat 128 n⟩ else none

/-- Digits in groups, with hyphens exactly between the groups. -/
def ofGroups? (cs : List Char) : Option Uuid :=
  let digits := cs.filter (· != '-')
  if cs == hyphenated digits then ofDigits? digits else none

def parse? (s : String) : Option Uuid :=
  let cs := s.toList
  if cs.length = 32 then ofDigits? cs
  else if cs.length = 36 then ofGroups? cs
  else if cs.length = 38 && cs.head? == some '\x7b' && cs.getLast? == some '\x7d' then
    ofGroups? (cs.drop 1).dropLast
  else if cs.length = 45 && (cs.take 9).map Char.toLower == "urn:uuid:".toList then
    ofGroups? (cs.drop 9)
  else none

def ofBytes (bytes : List Nat) : Uuid :=
  ⟨BitVec.ofNat 128 (bytes.foldl (fun total byte => 256 * total + byte % 256) 0)⟩

end Uuid
end AuditLog
