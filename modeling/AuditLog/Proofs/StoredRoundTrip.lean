import AuditLog.Proofs.ExactDoubles
import AuditLog.Proofs.StoredText

/-! What becomes of a document that is stored and read back. It is an error exactly if some double
in it is not finite or its text is nested deeper than the reader goes; all else comes back as it
was, except for doubles that the reader, rounding more than once, misses, and for leap seconds that
do not end their minute. -/
namespace AuditLog

namespace Value

mutual
/-- The tables in the value are in order, at every depth. -/
def InOrder : Value → Prop
  | .array items => ItemsInOrder items
  | .document fields => Table.Ordered fields ∧ FieldsInOrder fields
  | _ => True
def ItemsInOrder : List Value → Prop
  | [] => True
  | v :: rest => InOrder v ∧ ItemsInOrder rest
def FieldsInOrder : List (String × Value) → Prop
  | [] => True
  | (_, v) :: rest => InOrder v ∧ FieldsInOrder rest
end

def AllFinite (xs : List Double) : Prop := ∀ x ∈ xs, x.isFinite = true

theorem allFinite_append {xs ys : List Double} :
    AllFinite (xs ++ ys) ↔ AllFinite xs ∧ AllFinite ys := List.forall_mem_append

mutual
theorem sound_of_finite : ∀ v : Value, v.InOrder → AllFinite v.doubles → v.Sound
  | .double x, _, finite => finite x List.mem_cons_self
  | .array items, ordered, finite => soundItems_of_finite items ordered finite
  | .document fields, ordered, finite => ⟨ordered.1, soundFields_of_finite fields ordered.2 finite⟩
  | .null, _, _ | .bool _, _, _ | .int _, _, _ | .text _, _, _ | .instant _, _, _ => trivial
theorem soundItems_of_finite : ∀ items : List Value, ItemsInOrder items →
    AllFinite (itemDoubles items) → SoundItems items
  | [], _, _ => trivial
  | v :: rest, ordered, finite =>
    have ⟨here, later⟩ := allFinite_append.mp finite
    ⟨sound_of_finite v ordered.1 here, soundItems_of_finite rest ordered.2 later⟩
theorem soundFields_of_finite : ∀ fields : List (String × Value), FieldsInOrder fields →
    AllFinite (fieldDoubles fields) → SoundFields fields
  | [], _, _ => trivial
  | (_, v) :: rest, ordered, finite =>
    have ⟨here, later⟩ := allFinite_append.mp finite
    ⟨sound_of_finite v ordered.1 here, soundFields_of_finite rest ordered.2 later⟩
end

mutual
/-- A tree with a double that is not finite is that of no value. -/
theorem ofJson?_none : ∀ v : Value, ¬ AllFinite v.doubles → ofJson? v.tree = none
  | .double x, infinite => by
    have unwritten : x.isFinite ≠ true := fun finite => infinite (List.forall_mem_singleton.mpr finite)
    rw [tree, if_neg unwritten]
    rfl
  | .array items, infinite => by
    simp only [tree, ofJson?, ofTagged?, ofItems?_none items infinite, Option.map_none, ite_self]
  | .document fields, infinite => by
    simp only [tree, ofJson?, ofTagged?, ofMembers?_none fields infinite, Option.map_none, ite_self]
  | .null, infinite | .bool _, infinite | .int _, infinite | .text _, infinite
  | .instant _, infinite => absurd (fun _ member => by cases member) infinite
theorem ofItems?_none : ∀ items : List Value, ¬ AllFinite (itemDoubles items) →
    ofItems? (itemTrees items) = none
  | [], infinite => absurd (fun _ member => by cases member) infinite
  | v :: rest, infinite => by
    rw [itemTrees, ofItems?]
    by_cases here : AllFinite v.doubles
    · have later := ofItems?_none rest fun finite => infinite (allFinite_append.mpr ⟨here, finite⟩)
      rw [later]
      cases ofJson? v.tree <;> rfl
    · rw [ofJson?_none v here]
      rfl
theorem ofMembers?_none : ∀ fields : List (String × Value), ¬ AllFinite (fieldDoubles fields) →
    ofMembers? (fieldTrees fields) = none
  | [], infinite => absurd (fun _ member => by cases member) infinite
  | (name, v) :: rest, infinite => by
    rw [fieldTrees, ofMembers?]
    by_cases here : AllFinite v.doubles
    · have later := ofMembers?_none rest fun finite => infinite (allFinite_append.mpr ⟨here, finite⟩)
      rw [later]
      cases ofJson? v.tree <;> rfl
    · rw [ofJson?_none v here]
      rfl
end

end Value

/-- A document whose tables are in order at every depth, as insertion leaves them. -/
structure OrderedDocument where
  fields : Document
  ordered : Table.Ordered fields
  inner : Value.FieldsInOrder fields

namespace OrderedDocument

def doubles (d : OrderedDocument) : List Double := Value.fieldDoubles d.fields

/-- What a document that was stored is read back as. -/
theorem stored_round_trip (d : OrderedDocument) :
    -- it is read unless it has a double that is not finite or is nested too deep
    (Document.ofStored? d.fields.stored =
      if (∀ x ∈ d.doubles, x.isFinite = true) ∧ d.fields.height ≤ Json.deepest then
        some d.fields.reread
      else none) ∧
    -- it is the same exactly if its doubles and its times are
    (Document.ofStored? d.fields.stored = some d.fields ↔
      d.fields.height ≤ Json.deepest ∧ (∀ x ∈ d.doubles, x.isFinite = true ∧ x.reread = x) ∧
        Value.RegularFields d.fields) ∧
    -- a double is read as a count of a power of ten, and exactly where neither is rounded
    ∀ x ∈ d.doubles, x.isFinite = true →
      Json.scaled? x.negative x.asRead.1 x.asRead.2 = some x.reread ∧
      (x.asRead.1 < 2 ^ 53 → -22 ≤ x.asRead.2 → x.asRead.2 ≤ 22 → x.reread = x) := by
  have read : Document.ofStored? d.fields.stored =
      if (∀ x ∈ d.doubles, x.isFinite = true) ∧ d.fields.height ≤ Json.deepest then
        some d.fields.reread
      else none := by
    by_cases finite : ∀ x ∈ d.doubles, x.isFinite = true
    · have sound := Value.soundFields_of_finite d.fields d.inner finite
      rw [Document.ofStored?_stored d.ordered sound]
      exact if_congr (and_iff_right finite).symm rfl rfl
    · rw [if_neg fun both => finite both.1, Document.ofStored?, Document.parse?_stored]
      split
      next =>
        simp only [bind, Option.bind_some, Value.ofMembers?_none d.fields finite, Option.bind_none]
      next => rfl
  refine ⟨read, ?_, ?_⟩
  · rw [read, forall₂_and]
    split
    next kept =>
      rw [Option.some.injEq, Document.reread, Value.rereadFields_eq_iff]
      exact ⟨fun same => ⟨kept.2, ⟨kept.1, same.1⟩, same.2⟩, fun all => ⟨all.2.1.2, all.2.2⟩⟩
    next lost =>
      constructor
      · intro found
        cases found
      · intro all
        exact absurd ⟨all.2.1.1, all.1⟩ lost
  · intro x _ finite
    exact ⟨Double.scaled?_asRead finite, Double.reread_eq_self finite⟩

section Samples

def oneField (name : String) (v : Value) (inner : v.InOrder) : OrderedDocument :=
  ⟨[(name, v)], List.pairwise_singleton _ _, ⟨inner, trivial⟩⟩

/-- 0.1 and 3.0 beside each other. -/
def plain : OrderedDocument :=
  oneField "xs" (.array [.double ⟨0x3FB999999999999A⟩, .double ⟨0x4008000000000000⟩])
    ⟨trivial, trivial, trivial⟩

theorem plain_kept : Document.ofStored? plain.fields.stored = some plain.fields := by
  obtain ⟨-, same, exactly⟩ := stored_round_trip plain
  have regular : Value.RegularFields plain.fields := ⟨⟨trivial, trivial, trivial⟩, trivial⟩
  refine same.mpr ⟨by decide, ?_, regular⟩
  have small : ∀ x ∈ plain.doubles, x.isFinite = true ∧ x.asRead.1 < 2 ^ 53 ∧
      -22 ≤ x.asRead.2 ∧ x.asRead.2 ≤ 22 := by decide +kernel
  intro x member
  obtain ⟨finite, count, low, high⟩ := small x member
  exact ⟨finite, (exactly x member finite).2 count low high⟩

/-- 3e23, which is read one unit lower. -/
def missed : OrderedDocument := oneField "x" (.double ⟨0x44CFC3842BD1F072⟩) trivial

/-- Documents inside each other. -/
def nest : Nat → Value
  | 0 => .null
  | n + 1 => .document [("a", nest n)]

theorem nest_spec (n : Nat) : (nest n).InOrder ∧ (nest n).doubles = [] ∧ (nest n).height = 2 * n := by
  induction n with
  | zero => exact ⟨trivial, rfl, rfl⟩
  | succ n ih =>
    obtain ⟨ordered, doubles, height⟩ := ih
    refine ⟨⟨List.pairwise_singleton _ _, ordered, trivial⟩, ?_, ?_⟩
    · rw [nest, Value.doubles, Value.fieldDoubles, doubles]
      rfl
    · rw [nest, Value.height, Value.fieldsHeight, Value.fieldsHeight, height, Nat.max_zero]
      rfl

def deep : OrderedDocument := oneField "a" (nest 64) (nest_spec 64).1

/-- Finite doubles are not enough for a document to come back equal, nor is their absence. -/
theorem stored_not_lossless :
    (¬ ∀ d : OrderedDocument, (∀ x ∈ d.doubles, x.isFinite = true) →
      ∃ back, Document.ofStored? d.fields.stored = some back ∧ d.fields.same back = true) ∧
    ¬ ∀ d : OrderedDocument, d.doubles = [] → ∃ back, Document.ofStored? d.fields.stored = some back := by
  constructor
  · intro claim
    obtain ⟨back, read, same⟩ := claim missed (by decide)
    have differs : (Document.ofStored? missed.fields.stored).all (fun back =>
        !missed.fields.same back) = true := by decide +kernel
    rw [read, Option.all_some, same] at differs
    cases differs
  · intro claim
    obtain ⟨-, doubles, height⟩ := nest_spec 64
    obtain ⟨back, read⟩ := claim deep (by rw [OrderedDocument.doubles]; exact congrArg (· ++ []) doubles)
    have beyond : ¬ deep.fields.height ≤ Json.deepest := by
      change ¬ max (nest 64).height 0 + 1 ≤ Json.deepest
      rw [height]
      decide
    rw [Document.ofStored?, Document.parse?_stored, if_neg beyond] at read
    cases read

end Samples

end OrderedDocument
end AuditLog
