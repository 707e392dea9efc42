import AuditLog.Number.Double
import AuditLog.Path
import AuditLog.Table
import AuditLog.Time.Instant

/-! Documents: the form in which records are stored, filtered and grouped. Unlike a
record a document may hold null. Numbers of the two kinds are compared by value,
after an integer has been rounded to a double. -/
namespace AuditLog

inductive Value where
  | null
  | bool (b : Bool)
  | int (i : Int64)
  | double (x : Double)
  | text (s : String)
  | instant (t : Instant)
  | array (items : List Value)
  | document (fields : List (String × Value))
deriving Inhabited

abbrev Document := Table String Value

namespace Value

mutual
/-- Equality of values of one kind, with numerical equality of doubles. -/
def same : Value → Value → Bool
  | .null, .null => true
  | .bool a, .bool b => a == b
  | .int a, .int b => a == b
  | .double a, .double b => a.same b
  | .text a, .text b => a == b
  | .instant a, .instant b => a == b
  | .array a, .array b => sameItems a b
  | .document a, .document b => sameFields a b
  | _, _ => false
def sameItems : List Value → List Value → Bool
  | [], [] => true
  | a :: as, b :: bs => same a b && sameItems as bs
  | _, _ => false
def sameFields : List (String × Value) → List (String × Value) → Bool
  | [], [] => true
  | (m, a) :: as, (n, b) :: bs => m == n && same a b && sameFields as bs
  | _, _ => false
end

/-- Equality that also equates an integer with a double of its value. -/
def looselyEquals : Value → Value → Bool
  | .int a, .double b => (Double.ofInt a.toInt).same b
  | .double a, .int b => (Double.ofInt b.toInt).same a
  | a, b => a.same b

/-- The order of two numbers, texts, instants or booleans; other values have none. -/
def compare? : Value → Value → Option Ordering
  | .int a, .int b => some (compare a.toInt b.toInt)
  | .double a, .double b => a.compare? b
  | .int a, .double b => (Double.ofInt a.toInt).compare? b
  | .double a, .int b => a.compare? (Double.ofInt b.toInt)
  | .text a, .text b => some (compare a b)
  | .instant a, .instant b => some (a.compare b)
  | .bool a, .bool b => some (compare a b)
  | _, _ => none

def int? : Value → Option Int64
  | .int i => some i
  | _ => none

def text? : Value → Option String
  | .text s => some s
  | _ => none

def instant? : Value → Option Instant
  | .instant t => some t
  | _ => none

def document? : Value → Option Document
  | .document d => some d
  | _ => none

end Value

namespace Document

def same (a b : Document) : Bool := Value.sameFields a b

def getAt : List String → Document → Option Value
  | [], _ => none
  | [name], d => Table.find? name d
  | name :: rest, d =>
    match Table.find? name d with
    | some (.document inner) => getAt rest inner
    | _ => none

def get? (d : Document) (path : Path) : Option Value := getAt path.segments d

def text? (d : Document) (name : String) : Option String :=
  (Table.find? name d).bind Value.text?

def int? (d : Document) (name : String) : Option Int64 :=
  (Table.find? name d).bind Value.int?

def instant? (d : Document) (name : String) : Option Instant :=
  (Table.find? name d).bind Value.instant?

def document? (d : Document) (name : String) : Option Document :=
  (Table.find? name d).bind Value.document?

end Document
end AuditLog
