import AuditLog.Document.Display
import AuditLog.Field

/-! Counting equal records of one day. Two documents fall into one group when their
group identifiers have the same text, so an integer and a double of its value do not
part a group. Groups stand in the order of their first members. -/
namespace AuditLog

/-- A group's common fields and day, its number of members and their latest time. -/
structure Group where
  common : Document
  date : Date
  count : Nat
  latest : Instant

namespace Group

def commonFields : List String := ["event", "player", "cause", "target", "entity"]

def commonOf (d : Document) : Document :=
  Table.ofPairs (commonFields.map fun name => (name, (Table.find? name d).getD .null))

def ofMember (zone : Zone) (d : Document) (created : Instant) : Group :=
  ⟨commonOf d, zone.dateOf created, 1, created⟩

/-- The common fields with the day as numbers; an absent field counts as null. -/
def id (g : Group) : Document :=
  Table.insert "day" (.int (Int64.ofNat g.date.day)) <|
    Table.insert "month" (.int (Int64.ofNat g.date.month)) <|
      Table.insert "year" (.int (Int64.ofInt g.date.year)) g.common

def key (g : Group) : List Char := Document.display g.id

/-- Joins a new member to the group with its key, or lets it begin a group. -/
def join (member : Group) : List Group → List Group
  | [] => [member]
  | g :: rest =>
    if g.key = member.key then
      { g with count := g.count + 1, latest := g.latest.latest member.latest } :: rest
    else g :: join member rest

def ofDocuments (zone : Zone) (ds : List Document) : List Group :=
  ds.foldl (fun groups d =>
    match Document.instant? d "created" with
    | some created => join (ofMember zone d created) groups
    | none => groups) []

def document (g : Group) : Document :=
  Table.ofPairs [("_id", .document g.id), ("count", .int (Int64.ofNat g.count)),
    ("created", .instant g.latest)]

end Group
end AuditLog
