import AuditLog.Document
import AuditLog.Json
import AuditLog.Number.Notation
import AuditLog.Time.Timestamp

/-! Documents as stored text: JSON in which every value carries the name of its kind,
so that instants stay apart from texts and integers from doubles. A double that is
not finite is written as null, which no reader accepts as a double. -/
namespace AuditLog.Value

def tagged (kind : String) (body : List Char) : List Char :=
  ['\x7b', '"'] ++ kind.toList ++ ['"', ':'] ++ body ++ ['\x7d']

mutual
def stored : Value → List Char
  | .null => "\"Null\"".toList
  | .bool b => tagged "Bool" (if b then "true" else "false").toList
  | .int i => tagged "Int" (Text.signed i.toInt)
  | .double x => tagged "Double" (if x.isFinite then x.stored else "null".toList)
  | .text s => tagged "String" (Json.quoted s)
  | .instant t => tagged "DateTime" ('"' :: Timestamp.stored t ++ ['"'])
  | .array items => tagged "Array" ('[' :: storedItems items ++ [']'])
  | .document fields => tagged "Document" ('\x7b' :: storedFields fields ++ ['\x7d'])
def storedItems : List Value → List Char
  | [] => []
  | [v] => stored v
  | v :: w :: rest => stored v ++ ',' :: storedItems (w :: rest)
def storedFields : List (String × Value) → List Char
  | [] => []
  | [(name, v)] => Json.quoted name ++ ':' :: stored v
  | (name, v) :: w :: rest => Json.quoted name ++ ':' :: stored v ++ ',' :: storedFields (w :: rest)
end

mutual
def ofJson? : Json → Option Value
  | .text s => if s == "Null" then some .null else none
  | .object [(kind, body)] => ofTagged? kind body
  | _ => none
def ofTagged? (kind : String) : Json → Option Value
  | .null => if kind == "Null" then some .null else none
  | .bool b => if kind == "Bool" then some (.bool b) else none
  | .int i =>
    if kind == "Int" then
      if -0x8000000000000000 ≤ i && i < 0x8000000000000000 then some (.int (Int64.ofInt i)) else none
    else if kind == "Double" then some (.double (Double.ofInt i))
    else none
  | .double x => if kind == "Double" then some (.double x) else none
  | .text s =>
    if kind == "String" then some (.text s)
    else if kind == "DateTime" then (Timestamp.read? s).map .instant
    else none
  | .array items =>
    if kind == "Array" then (ofItems? items).map .array else none
  | .object members =>
    if kind == "Document" then (ofMembers? members).map fun fields => .document (Table.ofPairs fields)
    else none
def ofItems? : List Json → Option (List Value)
  | [] => some []
  | j :: rest => do return (← ofJson? j) :: (← ofItems? rest)
def ofMembers? : List (String × Json) → Option (List (String × Value))
  | [] => some []
  | (name, j) :: rest => do return (name, ← ofJson? j) :: (← ofMembers? rest)
end

end AuditLog.Value

namespace AuditLog.Document

def stored (d : Document) : String :=
  String.ofList ('\x7b' :: Value.storedFields d ++ ['\x7d'])

/-- The document in a stored text; of equal names the last one counts. -/
def ofStored? (s : String) : Option Document := do
  match ← Json.parse? s with
  | .object members => return Table.ofPairs (← Value.ofMembers? members)
  | _ => none

end AuditLog.Document
