import AuditLog.Record

/-! What a search asks of a record. A leaf compares one field by a rule with an operand
that fits the rule; leaves are joined by AND and OR groups of any depth. -/
namespace AuditLog

inductive Rule where
  | equals
  | exists
  | includes
  | atLeast
  | atMost
  | between
deriving DecidableEq

namespace Rule

def text : Rule → String
  | .equals => "EQUALS"
  | .exists => "EXISTS"
  | .includes => "INCLUDES"
  | .atLeast => "GREATER_THAN_EQUAL"
  | .atMost => "LESS_THAN_EQUAL"
  | .between => "BETWEEN"

def all : List Rule := [.equals, .exists, .includes, .atLeast, .atMost, .between]

def ofText? (s : String) : Option Rule := all.find? (·.text == s)

end Rule

inductive Bound where
  | inclusive (x : Double)
  | exclusive (x : Double)
  | unbounded
deriving DecidableEq

structure NumberRange where
  lower : Bound
  upper : Bound
deriving DecidableEq

namespace NumberRange

def closed (lower upper : Double) : NumberRange := ⟨.inclusive lower, .inclusive upper⟩

def isTwoSided (range : NumberRange) : Bool :=
  range.lower != .unbounded && range.upper != .unbounded

def contains (range : NumberRange) (x : Double) : Bool :=
  (match range.lower with
    | .inclusive l => l.atMost x
    | .exclusive l => l.less x
    | .unbounded => true) &&
  (match range.upper with
    | .inclusive u => x.atMost u
    | .exclusive u => x.less u
    | .unbounded => true)

end NumberRange

inductive Operand where
  | scalar (v : Datum)
  | list (items : List Datum)
  | range (r : NumberRange)

namespace Operand

/-- A list value is a list of operands, any other value a single one. -/
def ofDatum : Datum → Operand
  | .list items => .list items
  | v => .scalar v

/-- BETWEEN takes a two-sided range and is the only rule that takes one, INCLUDES takes
a list, and EXISTS a boolean. -/
def fits (operand : Operand) (rule : Rule) : Bool :=
  match rule, operand with
  | .between, .range r => r.isTwoSided
  | .between, _ => false
  | .includes, .list _ => true
  | .includes, _ => false
  | .exists, .scalar (.bool _) => true
  | .exists, _ => false
  | _, .range _ => false
  | _, _ => true

end Operand

inductive ConditionError where
  | emptyPath
  | misfit (field : Path) (rule : Rule)
deriving DecidableEq

namespace ConditionError

def message : ConditionError → String
  | .emptyPath => "empty data key"
  | .misfit field rule =>
    "invalid argument: " ++ match rule with
      | .between => "BETWEEN on '" ++ field.text ++ "' requires a two-sided value range"
      | .includes => "INCLUDES on '" ++ field.text ++ "' requires a list value"
      | .exists => "EXISTS on '" ++ field.text ++ "' requires a boolean value"
      | _ => "a value range on '" ++ field.text ++ "' requires BETWEEN"

end ConditionError

structure Leaf where
  field : Path
  rule : Rule
  operand : Operand
  field_ne : field.segments ≠ []
  fits : operand.fits rule = true

namespace Leaf

def make (field : Path) (rule : Rule) (operand : Operand) : Except ConditionError Leaf :=
  if field_ne : field.segments ≠ [] then
    if fits : operand.fits rule = true then .ok ⟨field, rule, operand, field_ne, fits⟩
    else .error (.misfit field rule)
  else .error .emptyPath

end Leaf

inductive Connective where
  | all
  | any
deriving DecidableEq

def Connective.text : Connective → String
  | .all => "AND"
  | .any => "OR"

inductive Condition where
  | leaf (l : Leaf)
  | group (connective : Connective) (children : List Condition)

namespace Condition

mutual
def references (field : Path) : Condition → Bool
  | .leaf l => l.field = field
  | .group _ children => referencesAny field children
def referencesAny (field : Path) : List Condition → Bool
  | [] => false
  | c :: rest => references field c || referencesAny field rest
end

def equalsText (field : Path) (s : String) (field_ne : field.segments ≠ [] := by decide) :
    Condition :=
  .leaf ⟨field, .equals, .scalar (.text s), field_ne, rfl⟩

/-- Equality with the only text, membership among several or none. -/
def oneOf (field : Path) (texts : List String) (field_ne : field.segments ≠ [] := by decide) :
    Condition :=
  match texts with
  | [s] => equalsText field s field_ne
  | _ => .leaf ⟨field, .includes, .list (texts.map .text), field_ne, rfl⟩

def present (field : Path) (b : Bool) (field_ne : field.segments ≠ [] := by decide) :
    Condition :=
  .leaf ⟨field, .exists, .scalar (.bool b), field_ne, rfl⟩

def since (field : Path) (t : Instant) (field_ne : field.segments ≠ [] := by decide) :
    Condition :=
  .leaf ⟨field, .atLeast, .scalar (.instant t), field_ne, rfl⟩

def within (field : Path) (lower upper : Double)
    (field_ne : field.segments ≠ [] := by decide) : Condition :=
  .leaf ⟨field, .between, .range (.closed lower upper), field_ne, rfl⟩

end Condition
end AuditLog
