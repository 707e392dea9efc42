import AuditLog.Query
import AuditLog.Search.Error

/-! Lookups that a search waits for. Each ends with conditions or an error, or never
ends. A join of few lookups fails as soon as one does; a join of many takes their
results in turn, so it sees a failure only after all lookups before it. -/
namespace AuditLog.Search

inductive Lookup where
  | found (conditions : List Condition)
  | failed (e : SearchError)
  | never

namespace Lookup

/-- Up to this many lookups are watched all at once. -/
def watched : Nat := 30

def failure? : Lookup → Option SearchError
  | .failed e => some e
  | _ => none

/-- The conditions of all lookups in turn, up to the first that gives none. -/
def inTurn (timeout : Nat) : List Lookup → Except SearchError (List Condition)
  | [] => .ok []
  | .found conditions :: rest => do return conditions ++ (← inTurn timeout rest)
  | .failed e :: _ => .error e
  | .never :: _ => .error (.timeout timeout)

/-- Joins lookups that end in the order of the positions in `finish`; a lookup that never
ends runs into the timeout, in milliseconds. -/
def join (timeout : Nat) (finish : List Nat) (lookups : List Lookup) :
    Except SearchError (List Condition) :=
  if lookups.length ≤ watched then
    match finish.findSome? fun position => lookups[position]?.bind failure? with
    | some e => .error e
    | none => inTurn timeout lookups
  else inTurn timeout lookups

end Lookup
end AuditLog.Search
