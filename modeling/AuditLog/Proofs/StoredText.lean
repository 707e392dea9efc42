import AuditLog.Document.Stored
import AuditLog.Proofs.DoubleText
import AuditLog.Proofs.Tables
import AuditLog.Proofs.TimestampText

/-! Which stored documents read back, and as what. The reader follows the tree of the text to a
fixed number of brackets inside each other, so a document reads back exactly when it is not
nested deeper; then it differs from the stored one in the last places of some doubles only. -/
namespace AuditLog

namespace Value

mutual
/-- How many brackets stand inside each other in the stored text. -/
def height : Value → Nat
  | .null => 0
  | .array items => itemsHeight items + 2
  | .document fields => fieldsHeight fields + 2
  | _ => 1
def itemsHeight : List Value → Nat
  | [] => 0
  | v :: rest => max (height v) (itemsHeight rest)
def fieldsHeight : List (String × Value) → Nat
  | [] => 0
  | (_, v) :: rest => max (height v) (fieldsHeight rest)
end

mutual
/-- The tree that the stored text spells. -/
def tree : Value → Json
  | .null => .text "Null"
  | .bool b => .object [("Bool", .bool b)]
  | .int i => .object [("Int", .int i.toInt)]
  | .double x => .object [("Double", if x.isFinite then .double x.reread else .null)]
  | .text s => .object [("String", .text s)]
  | .instant t => .object [("DateTime", .text (String.ofList (Timestamp.stored t)))]
  | .array items => .object [("Array", .array (itemTrees items))]
  | .document fields => .object [("Document", .object (fieldTrees fields))]
def itemTrees : List Value → List Json
  | [] => []
  | v :: rest => tree v :: itemTrees rest
def fieldTrees : List (String × Value) → List (String × Json)
  | [] => []
  | (name, v) :: rest => (name, tree v) :: fieldTrees rest
end

mutual
/-- The value with every double and every time as it is read back. -/
def reread : Value → Value
  | .double x => .double x.reread
  | .instant t => .instant t.reread
  | .array items => .array (rereadItems items)
  | .document fields => .document (rereadFields fields)
  | v => v
def rereadItems : List Value → List Value
  | [] => []
  | v :: rest => reread v :: rereadItems rest
def rereadFields : List (String × Value) → List (String × Value)
  | [] => []
  | (name, v) :: rest => (name, reread v) :: rereadFields rest
end

mutual
/-- The doubles in the value, at every depth. -/
def doubles : Value → List Double
  | .double x => [x]
  | .array items => itemDoubles items
  | .document fields => fieldDoubles fields
  | _ => []
def itemDoubles : List Value → List Double
  | [] => []
  | v :: rest => doubles v ++ itemDoubles rest
def fieldDoubles : List (String × Value) → List Double
  | [] => []
  | (_, v) :: rest => doubles v ++ fieldDoubles rest
end

mutual
/-- Every time in the value is read back as itself, at every depth. -/
def Regular : Value → Prop
  | .instant t => t.Regular
  | .array items => RegularItems items
  | .document fields => RegularFields fields
  | _ => True
def RegularItems : List Value → Prop
  | [] => True
  | v :: rest => Regular v ∧ RegularItems rest
def RegularFields : List (String × Value) → Prop
  | [] => True
  | (_, v) :: rest => Regular v ∧ RegularFields rest
end

mutual
/-- A value is read as itself exactly if all of its doubles and all of its times are. -/
theorem reread_eq_iff : ∀ v : Value,
    v.reread = v ↔ (∀ x ∈ v.doubles, x.reread = x) ∧ v.Regular
  | .double x => by simp [reread, doubles, Regular]
  | .instant t => by simp [reread, doubles, Regular, Instant.reread_eq_self]
  | .array items => by simp [reread, doubles, Regular, rereadItems_eq_iff items]
  | .document fields => by simp [reread, doubles, Regular, rereadFields_eq_iff fields]
  | .null | .bool _ | .int _ | .text _ => by simp [reread, doubles, Regular]
theorem rereadItems_eq_iff : ∀ items : List Value,
    rereadItems items = items ↔ (∀ x ∈ itemDoubles items, x.reread = x) ∧ RegularItems items
  | [] => by simp [rereadItems, itemDoubles, RegularItems]
  | v :: rest => by
    rw [rereadItems, itemDoubles, List.forall_mem_append, List.cons.injEq, reread_eq_iff v,
      rereadItems_eq_iff rest, RegularItems, and_and_and_comm]
theorem rereadFields_eq_iff : ∀ fields : List (String × Value),
    rereadFields fields = fields ↔
      (∀ x ∈ fieldDoubles fields, x.reread = x) ∧ RegularFields fields
  | [] => by simp [rereadFields, fieldDoubles, RegularFields]
  | (name, v) :: rest => by
    rw [rereadFields, fieldDoubles, List.forall_mem_append, List.cons.injEq, Prod.mk.injEq,
      eq_self_iff_true, true_and, reread_eq_iff v, rereadFields_eq_iff rest, RegularFields,
      and_and_and_comm]
end

mutual
/-- Tables keep their order and doubles are finite, at every depth. -/
def Sound : Value → Prop
  | .double x => x.isFinite = true
  | .array items => SoundItems items
  | .document fields => Table.Ordered fields ∧ SoundFields fields
  | _ => True
def SoundItems : List Value → Prop
  | [] => True
  | v :: rest => Sound v ∧ SoundItems rest
def SoundFields : List (String × Value) → Prop
  | [] => True
  | (_, v) :: rest => Sound v ∧ SoundFields rest
end

theorem itemsHeight_le {items : List Value} {n : Nat} :
    itemsHeight items ≤ n ↔ ∀ v ∈ items, height v ≤ n := by
  induction items with
  | nil => simp [itemsHeight]
  | cons v rest ih => simp [itemsHeight, ih]

theorem fieldsHeight_le {fields : List (String × Value)} {n : Nat} :
    fieldsHeight fields ≤ n ↔ ∀ field ∈ fields, height field.2 ≤ n := by
  induction fields with
  | nil => simp [fieldsHeight]
  | cons field rest ih =>
    obtain ⟨name, v⟩ := field
    simp [fieldsHeight, ih]

theorem itemTrees_eq (items : List Value) : itemTrees items = items.map tree := by
  induction items with
  | nil => rfl
  | cons v rest ih => simp [itemTrees, ih]

theorem fieldTrees_eq (fields : List (String × Value)) :
    fieldTrees fields = fields.map fun field => (field.1, tree field.2) := by
  induction fields with
  | nil => rfl
  | cons field rest ih => simp [fieldTrees, ih]

theorem storedItems_eq (items : List Value) :
    storedItems items = Text.joinWith [','] (items.map stored) := by
  induction items with
  | nil => rfl
  | cons v rest ih =>
    cases rest with
    | nil => rfl
    | cons w more => simpa [storedItems, Text.joinWith] using ih

def storedField (field : String × Value) : List Char :=
  Json.quoted field.1 ++ ':' :: stored field.2

theorem storedFields_eq (fields : List (String × Value)) :
    storedFields fields = Text.joinWith [','] (fields.map storedField) := by
  induction fields with
  | nil => rfl
  | cons field rest ih =>
    cases rest with
    | nil => rfl
    | cons next more => simpa [storedFields, storedField, Text.joinWith] using ih

section Reading

open Json

variable {depth : Nat} {rest : List Char}

theorem mapM_ite {α β : Type} (p : α → Prop) [DecidablePred p] (f : α → β) (xs : List α) :
    (xs.mapM fun x => if p x then some (f x) else none) =
      if ∀ x ∈ xs, p x then some (xs.map f) else none := by
  induction xs with
  | nil => simp
  | cons x others ih =>
    rw [List.mapM_cons, ih]
    simp only [List.forall_mem_cons]
    by_cases here : p x
    · by_cases there : ∀ y ∈ others, p y
      · rw [if_pos here, if_pos there, if_pos ⟨here, there⟩]
        rfl
      · rw [if_pos here, if_neg there, if_neg (mt And.right there)]
        rfl
    · simp only [here, if_false, false_and]
      rfl

theorem value?_tagged {kind : String} {body : List Char} {tree : Option Json}
    (plain : kind.toList.flatMap escapedChar = kind.toList)
    (read : ∀ tail, Closes tail → value? depth (body ++ tail) = tree.map (·, tail)) :
    value? (depth + 1) (tagged kind body ++ rest) =
      (tree.map fun j => .object [(kind, j)]).map (·, rest) := by
  have each : ∀ x ∈ [body], ∀ tail, Closes tail →
      member? (value? depth) (quoted kind ++ ':' :: x ++ tail) =
        (tree.map fun j => (kind, j)).map (·, tail) := by
    intro x only tail closes
    obtain rfl := List.mem_singleton.mp only
    rw [List.append_assoc, List.cons_append, member?_quoted, read tail closes]
    cases tree <;> rfl
  have enclosed := enclosed?_joined '\x7d' each
    (by intro x _; exact ⟨'"', _, rfl, rfl, by decide⟩) (closes_cons (by simp) rest) (by decide)
  have shape : tagged kind body ++ rest =
      '\x7b' :: (Text.joinWith [','] ([body].map fun x => quoted kind ++ ':' :: x) ++
        '\x7d' :: rest) := by
    simp [tagged, quoted, plain, Text.joinWith]
  have opens : value? (depth + 1) (tagged kind body ++ rest) =
      (enclosed? (member? (value? depth)) '\x7d'
        (Text.joinWith [','] ([body].map fun x => quoted kind ++ ':' :: x) ++ '\x7d' :: rest)).map
          fun read => (.object read.1, read.2) := by
    rw [shape]
    rfl
  rw [opens, enclosed]
  cases tree <;> rfl

theorem value?_shallow {kind : String} {body : List Char}
    (plain : kind.toList.flatMap escapedChar = kind.toList)
    (deeper : ∀ tail, value? 0 (body ++ tail) = none) :
    value? 1 (tagged kind body ++ rest) = none := by
  have nothing : ∀ tail, Closes tail → value? 0 (body ++ tail) = (none : Option Json).map (·, tail) :=
    fun tail _ => deeper tail
  exact value?_tagged plain nothing

theorem value?_scalar {kind : String} {body : List Char} {tree : Json}
    (plain : kind.toList.flatMap escapedChar = kind.toList)
    (read : ∀ depth tail, Closes tail → value? depth (body ++ tail) = some (tree, tail)) :
    value? depth (tagged kind body ++ rest) =
      (if 1 ≤ depth then some (.object [(kind, tree)]) else none).map (·, rest) := by
  cases depth with
  | zero => rfl
  | succ depth =>
    have found : ∀ tail, Closes tail →
        value? depth (body ++ tail) = (some tree).map (·, tail) := read depth
    rw [value?_tagged plain found]
    simp

theorem value?_array (items : List Value)
    (each : ∀ v ∈ items, ∀ tail, Closes tail →
      value? depth (v.stored ++ tail) = (if v.height ≤ depth then some v.tree else none).map (·, tail))
    (rest : List Char) :
    value? (depth + 1) ('[' :: storedItems items ++ [']'] ++ rest) =
      (if itemsHeight items ≤ depth then some (.array (itemTrees items)) else none).map (·, rest) := by
  have enclosed := enclosed?_joined ']' each
    (fun v _ => ?_) (closes_cons (by simp) rest) (by decide)
  · have opens : value? (depth + 1) ('[' :: storedItems items ++ [']'] ++ rest) =
        (enclosed? (value? depth) ']' (storedItems items ++ ']' :: rest)).map
          fun read => (.array read.1, read.2) := by
      simp only [List.cons_append, List.append_assoc, List.nil_append]
      rfl
    rw [opens, storedItems_eq, enclosed, mapM_ite, itemTrees_eq]
    simp only [itemsHeight_le]
    split <;> rfl
  · cases v <;> exact ⟨_, _, rfl, by decide, by decide⟩

theorem value?_fields (fields : List (String × Value))
    (each : ∀ field ∈ fields, ∀ tail, Closes tail →
      value? depth (field.2.stored ++ tail) =
        (if field.2.height ≤ depth then some field.2.tree else none).map (·, tail))
    (rest : List Char) :
    value? (depth + 1) ('\x7b' :: storedFields fields ++ ['\x7d'] ++ rest) =
      (if fieldsHeight fields ≤ depth then some (.object (fieldTrees fields)) else none).map
        (·, rest) := by
  have members : ∀ field ∈ fields, ∀ tail, Closes tail →
      member? (value? depth) (storedField field ++ tail) =
        (if field.2.height ≤ depth then some (field.1, field.2.tree) else none).map (·, tail) := by
    intro field member tail closes
    rw [storedField, List.append_assoc, List.cons_append, member?_quoted,
      each field member tail closes]
    split <;> rfl
  have enclosed := enclosed?_joined '\x7d' members
    (fun field _ => ⟨'"', _, rfl, by decide, by decide⟩) (closes_cons (by simp) rest) (by decide)
  have opens : value? (depth + 1) ('\x7b' :: storedFields fields ++ ['\x7d'] ++ rest) =
      (enclosed? (member? (value? depth)) '\x7d' (storedFields fields ++ '\x7d' :: rest)).map
        fun read => (.object read.1, read.2) := by
    simp only [List.cons_append, List.append_assoc, List.nil_append]
    rfl
  rw [opens, storedFields_eq, enclosed, mapM_ite, fieldTrees_eq]
  simp only [fieldsHeight_le]
  split <;> rfl

theorem plain_timestamp (t : Instant) : Plain (Timestamp.stored t) := by
  have padded (width n : Nat) : Plain (Text.padded width n) := plain_digits (Text.padded_digits width n)
  have empty : Plain [] := by
    intro c member
    cases member
  have year (y : Int) : Plain (Timestamp.yearText y) := by
    unfold Timestamp.yearText
    split
    · exact padded _ _
    · split <;> exact .cons rfl (padded _ _)
  have fraction (n : Nat) : Plain (Timestamp.fractionText n) := by
    unfold Timestamp.fractionText
    simp only
    split
    · exact empty
    split
    · exact .cons rfl (padded _ _)
    split <;> exact .cons rfl (padded _ _)
  have date (d : Date) : Plain (Timestamp.dateText d) :=
    ((year _).append (.cons rfl (padded _ _))).append (.cons rfl (padded _ _))
  have clock (second n : Nat) : Plain (Timestamp.clockText second n) :=
    ((padded _ _).append (.cons rfl (padded _ _))).append (.cons rfl (padded _ _))
  exact (((date _).append (.cons rfl (clock _ _))).append (fraction _)).append (.cons rfl empty)

/-- The text of a value is read up to the reader's depth, and not beyond it. -/
theorem value?_stored (depth : Nat) (v : Value) {rest : List Char} (closes : Closes rest) :
    value? depth (v.stored ++ rest) =
      (if v.height ≤ depth then some v.tree else none).map (·, rest) := by
  induction depth using Nat.strongRecOn generalizing v rest with
  | ind depth ih =>
    cases v with
    | null => exact value?_quoted depth "Null" rest
    | bool b => exact value?_scalar rfl (fun depth tail _ => value?_bool depth b tail)
    | int i =>
      exact value?_scalar rfl fun depth tail closes =>
        value?_signed depth i.le_toInt i.toInt_lt closes
    | double x =>
      simp only [stored, tree]
      split
      next finite => exact value?_scalar rfl fun depth tail closes => x.value?_reread depth finite closes
      next => exact value?_scalar rfl fun depth tail _ => value?_null depth tail
    | text s => exact value?_scalar rfl fun depth tail _ => value?_quoted depth s tail
    | instant t =>
      have text : '"' :: Timestamp.stored t ++ ['"'] = quoted (String.ofList (Timestamp.stored t)) := by
        rw [quoted, String.toList_ofList, (plain_timestamp t).escaped]
      simp only [stored, text]
      exact value?_scalar rfl fun depth tail _ => value?_quoted depth _ tail
    | array items =>
      rcases depth with _ | _ | depth
      · rfl
      · rw [stored, value?_shallow rfl fun _ => rfl]
        simp [height]
      · have fits : ∀ tail, Closes tail → _ := fun tail _ =>
          value?_array items (fun v _ _ closes => ih depth (by omega) v closes) tail
        rw [stored, value?_tagged rfl fits]
        simp only [height, Nat.add_le_add_iff_right]
        split <;> rfl
    | document fields =>
      rcases depth with _ | _ | depth
      · rfl
      · rw [stored, value?_shallow rfl fun _ => rfl]
        simp [height]
      · have fits : ∀ tail, Closes tail → _ := fun tail _ =>
          value?_fields fields (fun field _ _ closes => ih depth (by omega) field.2 closes) tail
        rw [stored, value?_tagged rfl fits]
        simp only [height, Nat.add_le_add_iff_right]
        split <;> rfl

end Reading

theorem rereadFields_eq (fields : List (String × Value)) :
    rereadFields fields = fields.map fun field => (field.1, reread field.2) := by
  induction fields with
  | nil => rfl
  | cons field rest ih => simp [rereadFields, ih]

theorem ordered_reread {fields : List (String × Value)} (ordered : Table.Ordered fields) :
    Table.Ordered (rereadFields fields) := by
  rw [rereadFields_eq]
  exact List.pairwise_map.2 ordered

theorem find?_reread (name : String) (fields : List (String × Value)) :
    Table.find? name (rereadFields fields) = (Table.find? name fields).map reread := by
  induction fields with
  | nil => rfl
  | cons field rest ih =>
    simp only [rereadFields, Table.find?, ih]
    split <;> rfl

mutual
theorem ofJson?_tree : ∀ v : Value, v.Sound → ofJson? v.tree = some v.reread
  | .null, _ => rfl
  | .bool _, _ => rfl
  | .int i, _ => by
    have range : (-0x8000000000000000 ≤ i.toInt && i.toInt < 0x8000000000000000) = true := by
      simp only [Bool.and_eq_true, decide_eq_true_eq]
      exact ⟨i.le_toInt, i.toInt_lt⟩
    simp only [tree, ofJson?, ofTagged?, beq_self_eq_true, if_true, range, Int64.ofInt_toInt, reread]
  | .double x, sound => by
    simp only [Sound] at sound
    simp only [tree, sound, if_true]
    rfl
  | .text _, _ => rfl
  | .instant t, _ => by
    have other : ("DateTime" == "String") = false := by decide
    simp only [tree, ofJson?, ofTagged?, other, Bool.false_eq_true, if_false, beq_self_eq_true,
      if_true, Timestamp.read?_stored, Option.map_some, reread]
  | .array items, sound => by
    simp only [Sound] at sound
    simp only [tree, ofJson?, ofTagged?, beq_self_eq_true, if_true, ofItems?_trees items sound,
      Option.map_some, reread]
  | .document fields, sound => by
    simp only [Sound] at sound
    simp only [tree, ofJson?, ofTagged?, beq_self_eq_true, if_true, ofMembers?_trees fields sound.2,
      Option.map_some, reread, Table.ofPairs_ordered (ordered_reread sound.1)]
theorem ofItems?_trees : ∀ items : List Value, SoundItems items →
    ofItems? (itemTrees items) = some (rereadItems items)
  | [], _ => rfl
  | v :: rest, sound => by
    simp only [SoundItems] at sound
    simp only [itemTrees, ofItems?, ofJson?_tree v sound.1, ofItems?_trees rest sound.2]
    rfl
theorem ofMembers?_trees : ∀ fields : List (String × Value), SoundFields fields →
    ofMembers? (fieldTrees fields) = some (rereadFields fields)
  | [], _ => rfl
  | (name, v) :: rest, sound => by
    simp only [SoundFields] at sound
    simp only [fieldTrees, ofMembers?, ofJson?_tree v sound.1, ofMembers?_trees rest sound.2]
    rfl
end

end Value

namespace Document

def height (d : Document) : Nat := Value.fieldsHeight d + 1

def reread (d : Document) : Document := Value.rereadFields d

/-- The text of a document is read as its tree, unless it is nested deeper than the reader goes. -/
theorem parse?_stored (d : Document) : Json.parse? d.stored =
    if d.height ≤ Json.deepest then some (.object (Value.fieldTrees d)) else none := by
  have read := Value.value?_fields d (fun field _ _ closes => Value.value?_stored 126 field.2 closes) []
  rw [List.append_nil] at read
  have limit : d.height ≤ Json.deepest ↔ Value.fieldsHeight d ≤ 126 := by
    unfold height Json.deepest
    omega
  have text : d.stored.toList = '\x7b' :: Value.storedFields d ++ ['\x7d'] := String.toList_ofList
  have depth : Json.deepest = 126 + 1 := rfl
  by_cases shallow : Value.fieldsHeight d ≤ 126
  · have blank : (Json.skip []).isEmpty = true := rfl
    rw [if_pos (limit.2 shallow)]
    rw [if_pos shallow] at read
    simp only [Json.parse?, text, depth, read, Option.map_some, blank, if_true]
  · rw [if_neg (mt limit.1 shallow)]
    rw [if_neg shallow] at read
    simp only [Json.parse?, text, depth, read, Option.map_none]

/-- A document reads back exactly when its text is not nested deeper than the reader goes. -/
theorem ofStored?_stored {d : Document} (ordered : Table.Ordered d) (sound : Value.SoundFields d) :
    ofStored? d.stored = if d.height ≤ Json.deepest then some d.reread else none := by
  rw [ofStored?, parse?_stored]
  split
  next =>
    simp only [bind, Option.bind_some, Value.ofMembers?_trees d sound, pure]
    exact congrArg some (Table.ofPairs_ordered (Value.ordered_reread ordered))
  next => rfl

end Document
end AuditLog
