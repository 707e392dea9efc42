import AuditLog.Condition

/-! Queries: conditions joined by AND, and a bound on the number of rows. -/
namespace AuditLog

structure Query where
  conditions : List Condition
  limit : Nat

namespace Query

def defaultLimit : Nat := 2500

def empty : Query := ⟨[], defaultLimit⟩

instance : Inhabited Query := ⟨empty⟩

def add (query : Query) (conditions : List Condition) : Query :=
  { query with conditions := query.conditions ++ conditions }

def references (query : Query) (field : Path) : Bool :=
  Condition.referencesAny field query.conditions

end Query

inductive SortOrder where
  | ascending
  | descending
deriving DecidableEq, Inhabited

namespace SortOrder

def standard : SortOrder := .descending

def parse? (s : String) : Option SortOrder :=
  let word := Text.lower s
  if word == "asc" || word == "ascending" || word == "oldest" then some .ascending
  else if word == "desc" || word == "descending" || word == "newest" then some .descending
  else none

def name : SortOrder → String
  | .ascending => "ascending"
  | .descending => "descending"

/-- The stored spelling: a name or its short form, in this letter case only. -/
def ofStored? (s : String) : Option SortOrder :=
  if s == "ascending" || s == "asc" then some .ascending
  else if s == "descending" || s == "desc" then some .descending
  else none

def sign : SortOrder → Int
  | .ascending => 1
  | .descending => -1

end SortOrder
end AuditLog
