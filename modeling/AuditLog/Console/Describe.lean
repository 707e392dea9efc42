import AuditLog.Event
import AuditLog.Field
import AuditLog.Number.Notation
import AuditLog.Time.Timestamp

/-! Entries as lines of text for people: what happened, by and to whom, and either where
and when or, for an aggregate, how often and on which day. -/
namespace AuditLog

namespace Datum

mutual
def describe : Datum → List Char
  | .bool b => (if b then "true" else "false").toList
  | .int i => Text.signed i.toInt
  | .double x => x.display
  | .text s => s.toList
  | .instant t => Timestamp.display t
  | .record _ => ['\x7b', '.', '.', '\x7d']
  | .list items => describeItems items
def describeItems : List Datum → List Char
  | [] => []
  | [v] => describe v
  | v :: w :: rest => describe v ++ ',' :: describeItems (w :: rest)
end

end Datum

namespace Entry

def fieldText? (entry : Entry) (field : Path) : Option (List Char) :=
  (Record.get? entry.data field).map Datum.describe

def wordAfterBlank (entry : Entry) (field : Path) : List Char :=
  match entry.fieldText? field with
  | some word => ' ' :: word
  | none => []

def messageText (entry : Entry) : List Char :=
  match entry.fieldText? Field.message with
  | some message => " \"".toList ++ message ++ ['"']
  | none => []

/-- The place, if the world and all coordinates are known. -/
def placeText (entry : Entry) : List Char :=
  match entry.fieldText? Field.world, entry.fieldText? Field.x, entry.fieldText? Field.y,
      entry.fieldText? Field.z with
  | some world, some x, some y, some z =>
    " at ".toList ++ world ++ ' ' :: Text.joinWith [','] [x, y, z]
  | _, _, _, _ => []

def timeText (entry : Entry) : List Char :=
  match Record.instant? entry.data Field.created with
  | some t =>
    " (".toList ++ Timestamp.dateText (Timestamp.utcDate t) ++ ' ' :: Timestamp.utcClock t ++ [')']
  | none => []

def describe (entry : Entry) : String :=
  let count := match entry with
    | .aggregate _ _ _ count => Text.decimal count ++ ['x', ' ']
    | .single _ _ => []
  let actors := [Field.cause, Field.target, Field.entity].flatMap entry.wordAfterBlank
  let tail := match entry with
    | .aggregate _ _ day _ => " (".toList ++ Timestamp.dateText day.date ++ [')']
    | .single _ _ => entry.placeText ++ entry.timeText
  String.ofList (count ++ entry.event.toList ++ actors ++ entry.messageText ++ tail)

end Entry
end AuditLog
