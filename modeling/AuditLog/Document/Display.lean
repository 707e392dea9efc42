import AuditLog.Document
import AuditLog.Number.Notation
import AuditLog.Text.Quoted
import AuditLog.Time.Timestamp

/-! Documents as readers see them: the notation in which filters, pipelines and group
keys are written. -/
namespace AuditLog.Value

mutual
def display : Value → List Char
  | .null => "null".toList
  | .bool b => (if b then "true" else "false").toList
  | .int i => Text.signed i.toInt
  | .double x => x.display
  | .text s => Text.quoted s
  | .instant t => "ISODate(\"".toList ++ Timestamp.display t ++ "\")".toList
  | .array items => '[' :: displayItems items ++ [']']
  | .document fields => '\x7b' :: displayFields fields ++ ['\x7d']
def displayItems : List Value → List Char
  | [] => []
  | [v] => display v
  | v :: w :: rest => display v ++ ',' :: ' ' :: displayItems (w :: rest)
def displayFields : List (String × Value) → List Char
  | [] => []
  | [(name, v)] => Text.quoted name ++ ':' :: ' ' :: display v
  | (name, v) :: w :: rest =>
    Text.quoted name ++ ':' :: ' ' :: display v ++ ',' :: ' ' :: displayFields (w :: rest)
end

end AuditLog.Value

namespace AuditLog.Document

def display (d : Document) : List Char := (Value.document d).display

end AuditLog.Document
