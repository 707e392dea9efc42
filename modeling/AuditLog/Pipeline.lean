import AuditLog.Filter
import AuditLog.Grouping
import AuditLog.Session

/-! How a search runs over documents: keep those that match, count them by group unless
single records are wanted, sort by creation time and keep the first rows. -/
namespace AuditLog

inductive Row where
  | single (d : Document)
  | group (g : Group)

namespace Row

def created? : Row → Option Instant
  | .single d => Document.instant? d "created"
  | .group g => some g.latest

def document : Row → Document
  | .single d => d
  | .group g => g.document

end Row

structure Pipeline where
  filter : Filter
  grouping : Option Zone
  order : SortOrder
  limit : Nat

namespace Pipeline

/-- Without chat, only documents that have no message match. -/
def ofSession (session : Session) : Except FilterError Pipeline := do
  let asked ← Filter.ofConditions session.query.conditions
  let noChat ← Filter.ofConditions [.present Field.message false Field.message_ne]
  return {
    filter := if session.has .noChat then asked.merge noChat else asked
    grouping := if session.has .noGroup then none else some session.zone
    order := session.order
    limit := session.query.limit }

/-- Times of creation in the given order; rows without one come last in both. -/
def compareCreated (order : SortOrder) (a b : Option Instant) : Ordering :=
  match a, b with
  | some a, some b =>
    match order with
    | .ascending => a.compare b
    | .descending => b.compare a
  | some _, none => .lt
  | none, some _ => .gt
  | none, none => .eq

def sortRows (order : SortOrder) (rows : List Row) : List Row :=
  rows.mergeSort fun a b => (compareCreated order a.created? b.created?).isLE

def rows (p : Pipeline) (ds : List Document) : List Row :=
  let matching := ds.filter fun d => p.filter.admits d
  let collected := match p.grouping with
    | some zone => (Group.ofDocuments zone matching).map Row.group
    | none => matching.map Row.single
  (sortRows p.order collected).take p.limit

def lowerBound? : Test → Option Instant
  | .atLeast v | .above v => v.instant?
  | _ => none

/-- A time before which no matching document is created, where the filter sets one. -/
def createdSince (p : Pipeline) : Option Instant :=
  match (p.filter.tests Field.created).filterMap lowerBound? with
  | [] => none
  | t :: rest => some (rest.foldl Instant.latest t)

def isGrouped (p : Pipeline) : Bool := p.grouping.isSome

def stageCount (p : Pipeline) : Nat := if p.isGrouped then 4 else 3

def stageText (name : String) (body : List Char) : List Char :=
  '\x7b' :: Text.quoted name ++ ':' :: ' ' :: body ++ ['\x7d']

def groupText (zone : Zone) : List Char :=
  let names := (Group.commonFields ++ ["day", "month", "year"]).map fun name =>
    Text.quoted (String.ofList ('$' :: name.toList))
  '\x7b' :: "\"_id\": [".toList ++ Text.joinWith [',', ' '] names ++
    "], \"timezone\": \"".toList ++ Timestamp.exactOffsetText zone ++
    "\", \"count\": ".toList ++ stageText "$sum" ['1'] ++ ['\x7d']

def display (p : Pipeline) : List Char :=
  let grouping := match p.grouping with
    | some zone => [stageText "$group" (groupText zone)]
    | none => []
  let stages := [stageText "$match" p.filter.display] ++ grouping ++
    [stageText "$sort" (stageText "created" (Text.signed p.order.sign)),
      stageText "$limit" (Text.decimal p.limit)]
  '[' :: Text.joinWith [',', ' '] stages ++ [']']

end Pipeline
end AuditLog
