import AuditLog.Search.Lookup
import AuditLog.Session

/-! What a search is made of: parameters, written `alias:value`, and flags, written
`-alias` or `-alias=value`. A handler answers to its aliases in any letter case and
adds conditions to the query, at once or by a lookup. -/
namespace AuditLog.Search

structure Argument where
  label : String
  value : String
deriving DecidableEq, Inhabited

structure Contribution where
  conditions : List Condition
  lookup : Option Lookup

namespace Contribution

def none : Contribution := ⟨[], .none⟩

def ofCondition (c : Condition) : Contribution := ⟨[c], .none⟩

end Contribution

def answersTo (aliases : List String) (label : String) : Bool :=
  aliases.any (Text.sameLetters label)

structure ParameterHandler where
  name : String
  aliases : List String
  allows : Requester → Bool
  accepts : Instant → String → Bool
  /-- The first argument may not follow the second, which was given before it. -/
  conflicts : Argument → Argument → Bool
  build : Instant → Session → Argument → Except SearchError Contribution
  /-- What stands in for an argument that was not given, and how it is announced. -/
  standIn : Instant → Session → Query → Except SearchError (Option (Argument × List Condition))

def ParameterHandler.handles (h : ParameterHandler) (label : String) : Bool :=
  answersTo h.aliases label

structure FlagHandler where
  name : String
  aliases : List String
  allows : Requester → Bool
  accepts : String → Bool
  apply : Session → String → Option String → Except SearchError (Session × Contribution)

def FlagHandler.handles (h : FlagHandler) (label : String) : Bool := answersTo h.aliases label

end AuditLog.Search
