import AuditLog.Condition
import AuditLog.Document.Codec
import AuditLog.Document.Display

/-! Filters on documents: tests joined by AND, gathered by field, and disjunctions each
of which must have a matching branch. Conditions are translated into one filter; AND
groups dissolve into it and OR groups stay apart. -/
namespace AuditLog

inductive Test where
  | equal (v : Value)
  | present (b : Bool)
  | among (vs : List Value)
  | notAmong (vs : List Value)
  | atLeast (v : Value)
  | above (v : Value)
  | atMost (v : Value)
  | below (v : Value)

namespace Test

def anyElement (p : Value → Bool) : Value → Bool
  | .array items => items.any p || p (.array items)
  | v => p v

def onSide (field : Option Value) (bound : Value) (side : Ordering → Bool) : Bool :=
  match field with
  | some v => (v.compare? bound).any side
  | none => false

def isAmong (vs : List Value) (field : Option Value) : Bool :=
  match field with
  | some v => anyElement (fun e => vs.any e.looselyEquals) v
  | none => false

def matches? (field : Option Value) : Test → Bool
  | .present b => field.isSome == b
  | .equal v => isAmong [v] field
  | .among vs => isAmong vs field
  | .notAmong vs => !isAmong vs field
  | .atLeast v => onSide field v (·.isGE)
  | .above v => onSide field v (·.isGT)
  | .atMost v => onSide field v (·.isLE)
  | .below v => onSide field v (·.isLT)

def operator : Test → String
  | .equal _ => "$eq"
  | .present _ => "$exists"
  | .among _ => "$in"
  | .notAmong _ => "$nin"
  | .atLeast _ => "$gte"
  | .above _ => "$gt"
  | .atMost _ => "$lte"
  | .below _ => "$lt"

def operand : Test → Value
  | .present b => .bool b
  | .among vs | .notAmong vs => .array vs
  | .equal v | .atLeast v | .above v | .atMost v | .below v => v

def display (t : Test) : List Char :=
  Text.quoted t.operator ++ ':' :: ' ' :: t.operand.display

end Test

inductive Filter where
  | mk (fields : List (Path × List Test)) (anyOf : List (List Filter))

/-- A condition that no filter expresses: its operand has no stored form. -/
inductive FilterError where
  | unsupported (field : Path) (rule : Rule)
deriving DecidableEq

def FilterError.message : FilterError → String
  | .unsupported field rule =>
    "invalid data: unsupported value for " ++ rule.text ++ " on '" ++ field.text ++ "'"

namespace Filter

def fields : Filter → Table Path (List Test)
  | mk fields _ => fields

def anyOf : Filter → List (List Filter)
  | mk _ anyOf => anyOf

def everything : Filter := mk [] []

instance : Inhabited Filter := ⟨everything⟩

def isEmpty (f : Filter) : Bool := f.fields.isEmpty && f.anyOf.isEmpty

def tests (f : Filter) (field : Path) : List Test := (Table.find? field f.fields).getD []

/-- Puts further tests after those that the field has already. -/
def addTests (fields : Table Path (List Test)) (field : Path) (tests : List Test) :
    Table Path (List Test) :=
  Table.insert field ((Table.find? field fields).getD [] ++ tests) fields

def add (f : Filter) (field : Path) (test : Test) : Filter :=
  mk (addTests f.fields field [test]) f.anyOf

def merge (f g : Filter) : Filter :=
  mk (g.fields.foldl (fun fields entry => addTests fields entry.1 entry.2) f.fields)
    (f.anyOf ++ g.anyOf)

mutual
def admits (d : Document) : Filter → Bool
  | mk fields anyOf =>
    (fields.all fun entry => entry.2.all (Test.matches? (Document.get? d entry.1))) &&
      allScopes d anyOf
def allScopes (d : Document) : List (List Filter) → Bool
  | [] => true
  | branches :: rest => someBranch d branches && allScopes d rest
def someBranch (d : Document) : List Filter → Bool
  | [] => false
  | branch :: rest => admits d branch || someBranch d rest
end

def stored? (leaf : Leaf) (v : Datum) : Except FilterError Value :=
  match Value.ofDatum? v with
  | some encoded => .ok encoded
  | none => .error (.unsupported leaf.field leaf.rule)

/-- The tests that one end of a range sets, of which an open end sets none. -/
def endTests (bound : Bound) (inclusive exclusive : Value → Test) : List Test :=
  match bound with
  | .inclusive x => [inclusive (.double x)]
  | .exclusive x => [exclusive (.double x)]
  | .unbounded => []

/-- A list operand asks for membership under INCLUDES and for its opposite under any
other rule that takes one. -/
def leafTests (leaf : Leaf) : Except FilterError (List Test) :=
  match leaf.operand with
  | .list items => do
    let values ← items.mapM (stored? leaf)
    return [if leaf.rule = .includes then .among values else .notAmong values]
  | .range r =>
    .ok (endTests r.lower .atLeast .above ++ endTests r.upper .atMost .below)
  | .scalar v =>
    match leaf.rule with
    | .exists => .ok [.present (v.bool?.getD false)]
    | .atLeast => do return [.atLeast (← stored? leaf v)]
    | .atMost => do return [.atMost (← stored? leaf v)]
    | _ => do return [.equal (← stored? leaf v)]

def ofLeaf (leaf : Leaf) : Except FilterError Filter := do
  return (← leafTests leaf).foldl (fun f test => f.add leaf.field test) everything

mutual
def ofCondition : Condition → Except FilterError Filter
  | .leaf leaf => ofLeaf leaf
  | .group .all children => conjunction everything children
  | .group .any children => do
    match ← branches children with
    | [] => return everything
    | fs => return mk [] [fs]
/-- Merges the children into `f`, stopping at the first that cannot be expressed. -/
def conjunction (f : Filter) : List Condition → Except FilterError Filter
  | [] => .ok f
  | c :: rest => do conjunction (f.merge (← ofCondition c)) rest
def branches : List Condition → Except FilterError (List Filter)
  | [] => .ok []
  | c :: rest => do return (← ofCondition c) :: (← branches rest)
end

def ofConditions (conditions : List Condition) : Except FilterError Filter :=
  conjunction everything conditions

def displayFields (fields : Table Path (List Test)) : List (List Char) :=
  fields.map fun entry =>
    Text.quoted entry.1.text ++ ':' :: ' ' :: '\x7b' ::
      Text.joinWith [',', ' '] (entry.2.map Test.display) ++ ['\x7d']

mutual
def display : Filter → List Char
  | mk fields anyOf =>
    '\x7b' :: Text.joinWith [',', ' '] (displayFields fields ++ displayScopes anyOf) ++ ['\x7d']
def displayScopes : List (List Filter) → List (List Char)
  | [] => []
  | branches :: rest =>
    ("\"$or\": [".toList ++ Text.joinWith [',', ' '] (displayBranches branches) ++ [']']) ::
      displayScopes rest
def displayBranches : List Filter → List (List Char)
  | [] => []
  | branch :: rest => display branch :: displayBranches rest
end

end Filter
end AuditLog
