import AuditLog.Number.Double
import AuditLog.Path
import AuditLog.Table
import AuditLog.Time.Instant

/-! Records of events: named values in order of their names, where a value may be a
record or a list again. A path walks through nested records only; a list is a leaf. -/
namespace AuditLog

inductive Datum where
  | bool (b : Bool)
  | int (i : Int64)
  | double (x : Double)
  | text (s : String)
  | instant (t : Instant)
  | record (entries : List (String × Datum))
  | list (items : List Datum)
deriving Inhabited

abbrev Record := Table String Datum

namespace Datum

mutual
/-- Equality of values, with numerical equality of doubles: NaN differs from itself. -/
def same : Datum → Datum → Bool
  | .bool a, .bool b => a == b
  | .int a, .int b => a == b
  | .double a, .double b => a.same b
  | .text a, .text b => a == b
  | .instant a, .instant b => a == b
  | .record a, .record b => sameEntries a b
  | .list a, .list b => sameItems a b
  | _, _ => false
def sameEntries : List (String × Datum) → List (String × Datum) → Bool
  | [], [] => true
  | (m, a) :: as, (n, b) :: bs => m == n && same a b && sameEntries as bs
  | _, _ => false
def sameItems : List Datum → List Datum → Bool
  | [], [] => true
  | a :: as, b :: bs => same a b && sameItems as bs
  | _, _ => false
end

def kind : Datum → String
  | .bool _ => "bool"
  | .int _ => "int"
  | .double _ => "float"
  | .text _ => "string"
  | .instant _ => "timestamp"
  | .record _ => "wrapper"
  | .list _ => "list"

def isPrimitive : Datum → Bool
  | .record _ | .list _ => false
  | _ => true

def isNumeric : Datum → Bool
  | .int _ | .double _ => true
  | _ => false

def bool? : Datum → Option Bool
  | .bool b => some b
  | _ => none

def int? : Datum → Option Int64
  | .int i => some i
  | _ => none

/-- The number as a double; a large integer is rounded. -/
def double? : Datum → Option Double
  | .double x => some x
  | .int i => some (.ofInt i.toInt)
  | _ => none

def text? : Datum → Option String
  | .text s => some s
  | _ => none

def instant? : Datum → Option Instant
  | .instant t => some t
  | _ => none

def record? : Datum → Option Record
  | .record r => some r
  | _ => none

def list? : Datum → Option (List Datum)
  | .list items => some items
  | _ => none

mutual
def hasNonFinite : Datum → Bool
  | .double x => !x.isFinite
  | .record entries => hasNonFiniteEntry entries
  | .list items => hasNonFiniteItem items
  | _ => false
def hasNonFiniteEntry : List (String × Datum) → Bool
  | [] => false
  | (_, v) :: rest => hasNonFinite v || hasNonFiniteEntry rest
def hasNonFiniteItem : List Datum → Bool
  | [] => false
  | v :: rest => hasNonFinite v || hasNonFiniteItem rest
end

end Datum

namespace Record

def same (a b : Record) : Bool := Datum.sameEntries a b

def getAt : List String → Record → Option Datum
  | [], _ => none
  | [name], r => Table.find? name r
  | name :: rest, r =>
    match Table.find? name r with
    | some (.record inner) => getAt rest inner
    | _ => none

def setAt : List String → Datum → Record → Record
  | [], _, r => r
  | [name], v, r => Table.insert name v r
  | name :: rest, v, r =>
    let inner := match Table.find? name r with
      | some (.record inner) => inner
      | _ => []
    Table.insert name (.record (setAt rest v inner)) r

/-- What stands at the end of the segments, and the record without it. -/
def takeAt : List String → Record → Option Datum × Record
  | [], r => (none, r)
  | [name], r => (Table.find? name r, Table.erase name r)
  | name :: rest, r =>
    match Table.find? name r with
    | some (.record inner) =>
      let (taken, left) := takeAt rest inner
      (taken, Table.insert name (.record left) r)
    | _ => (none, r)

def get? (r : Record) (path : Path) : Option Datum := getAt path.segments r

/-- Makes records on the way, in place of any other value met there. The empty path
sets nothing. -/
def set (r : Record) (path : Path) (v : Datum) : Record := setAt path.segments v r

/-- The records on the way stay, even if nothing is left in them. -/
def take (r : Record) (path : Path) : Option Datum × Record := takeAt path.segments r

def remove (r : Record) (path : Path) : Record := (take r path).2

def text? (r : Record) (path : Path) : Option String := (get? r path).bind Datum.text?

def record? (r : Record) (path : Path) : Option Record := (get? r path).bind Datum.record?

def instant? (r : Record) (path : Path) : Option Instant := (get? r path).bind Datum.instant?

mutual
def pathsOf (name : String) : Datum → List (List String)
  | .record entries => (leafPathsOf entries).map (name :: ·)
  | _ => [[name]]
def leafPathsOf : List (String × Datum) → List (List String)
  | [] => []
  | (name, v) :: rest => pathsOf name v ++ leafPathsOf rest
end

def names (r : Record) : List Path := r.map fun entry => .of entry.1

def leafPaths (r : Record) : List Path := (leafPathsOf r).map Path.mk

def hasNonFinite (r : Record) : Bool := Datum.hasNonFiniteEntry r

end Record
end AuditLog
