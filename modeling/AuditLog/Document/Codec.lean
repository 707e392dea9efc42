import AuditLog.Document
import AuditLog.Record

/-! Records as documents and back. A document cannot hold what a record can in three
places: an entry without a name, a list directly inside a list, and a list made of
such lists alone; these are left out. -/
namespace AuditLog

namespace Value

mutual
def ofDatum? : Datum → Option Value
  | .bool b => some (.bool b)
  | .int i => some (.int i)
  | .double x => some (.double x)
  | .text s => some (.text s)
  | .instant t => some (.instant t)
  | .record entries => some (.document (ofEntries entries))
  | .list [] => some (.array [])
  | .list (v :: rest) =>
    match ofItems (v :: rest) with
    | [] => none
    | items => some (.array items)
def ofItems : List Datum → List Value
  | [] => []
  | .list _ :: rest => ofItems rest
  | v :: rest => (ofDatum? v).toList ++ ofItems rest
def ofEntries : List (String × Datum) → List (String × Value)
  | [] => []
  | (name, v) :: rest =>
    if name.isEmpty then ofEntries rest
    else ((ofDatum? v).map fun encoded => (name, encoded)).toList ++ ofEntries rest
end

end Value

namespace Datum

mutual
/-- The value that a stored form stands for; null stands for none. -/
def ofValue? : Value → Option Datum
  | .null => none
  | .bool b => some (.bool b)
  | .int i => some (.int i)
  | .double x => some (.double x)
  | .text s => some (.text s)
  | .instant t => some (.instant t)
  | .document fields => some (.record (ofFields fields))
  | .array items => some (.list (ofElements items))
def ofElements : List Value → List Datum
  | [] => []
  | .array _ :: rest => ofElements rest
  | v :: rest => (ofValue? v).toList ++ ofElements rest
def ofFields : List (String × Value) → List (String × Datum)
  | [] => []
  | (name, v) :: rest => ((ofValue? v).map fun decoded => (name, decoded)).toList ++ ofFields rest
end

end Datum

def Document.ofRecord (r : Record) : Document := Value.ofEntries r

def Record.ofDocument (d : Document) : Record := Datum.ofFields d

end AuditLog
