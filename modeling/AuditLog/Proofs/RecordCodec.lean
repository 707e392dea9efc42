import AuditLog.Document.Codec
import AuditLog.Proofs.StoredText

/-! Records whose tables are in order at every depth, and what of them comes back from a
document. A record without empty names and without lists directly inside lists comes back
whole, with its doubles as they are read. -/
namespace AuditLog

namespace Datum

mutual
/-- The tables in the value are in order, at every depth. -/
def InOrder : Datum → Prop
  | .record entries => Table.Ordered entries ∧ EntriesInOrder entries
  | .list items => ItemsInOrder items
  | _ => True
def EntriesInOrder : List (String × Datum) → Prop
  | [] => True
  | (_, v) :: rest => InOrder v ∧ EntriesInOrder rest
def ItemsInOrder : List Datum → Prop
  | [] => True
  | v :: rest => InOrder v ∧ ItemsInOrder rest
end

theorem entriesInOrder_iff {entries : List (String × Datum)} :
    EntriesInOrder entries ↔ ∀ entry ∈ entries, entry.2.InOrder := by
  induction entries with
  | nil => simp [EntriesInOrder]
  | cons entry rest ih => simp [EntriesInOrder, ih]

theorem inOrder_of_primitive {v : Datum} (primitive : v.isPrimitive = true) : v.InOrder := by
  cases v with
  | record entries => cases primitive
  | list items => cases primitive
  | _ => trivial

mutual
/-- No entry has an empty name and no list stands directly inside a list, at any depth. -/
def Plain : Datum → Prop
  | .record entries => PlainEntries entries
  | .list items => PlainItems items
  | _ => True
def PlainEntries : List (String × Datum) → Prop
  | [] => True
  | (name, v) :: rest => name.isEmpty = false ∧ Plain v ∧ PlainEntries rest
def PlainItems : List Datum → Prop
  | [] => True
  | v :: rest => v.list? = none ∧ Plain v ∧ PlainItems rest
end

mutual
/-- The value with every double and every time as it is read back. -/
def reread : Datum → Datum
  | .double x => .double x.reread
  | .instant t => .instant t.reread
  | .record entries => .record (rereadEntries entries)
  | .list items => .list (rereadItems items)
  | v => v
def rereadEntries : List (String × Datum) → List (String × Datum)
  | [] => []
  | (name, v) :: rest => (name, reread v) :: rereadEntries rest
def rereadItems : List Datum → List Datum
  | [] => []
  | v :: rest => reread v :: rereadItems rest
end

end Datum

namespace Value

def ofNamed? (name : String) (v : Datum) : Option Value :=
  if name.isEmpty then none else ofDatum? v

theorem ofEntries_eq (entries : List (String × Datum)) :
    ofEntries entries =
      entries.filterMap fun entry => (ofNamed? entry.1 entry.2).map fun v => (entry.1, v) := by
  induction entries with
  | nil => rfl
  | cons entry rest ih =>
    obtain ⟨name, v⟩ := entry
    simp only [ofEntries, ofNamed?, List.filterMap_cons, ih]
    split
    · rfl
    · cases ofDatum? v <;> rfl

def ofItem? (v : Datum) : Option Value := if v.list?.isSome then none else ofDatum? v

theorem ofItems_cons (v : Datum) (rest : List Datum) :
    ofItems (v :: rest) = (ofItem? v).toList ++ ofItems rest := by
  cases v <;> rfl

theorem ofEntries_cons (name : String) (v : Datum) (rest : List (String × Datum)) :
    ofEntries ((name, v) :: rest) =
      ((ofNamed? name v).map fun encoded => (name, encoded)).toList ++ ofEntries rest := by
  simp only [ofEntries, ofNamed?]
  split <;> rfl

theorem ofFields_eq (fields : List (String × Value)) :
    Datum.ofFields fields =
      fields.filterMap fun field => (Datum.ofValue? field.2).map fun v => (field.1, v) := by
  induction fields with
  | nil => rfl
  | cons field rest ih =>
    obtain ⟨name, v⟩ := field
    simp only [Datum.ofFields, List.filterMap_cons, ih]
    cases Datum.ofValue? v <;> rfl

end Value

namespace Datum

open Value

mutual
theorem sound_ofDatum? : ∀ v : Datum, v.InOrder → v.hasNonFinite = false →
    ∀ e, ofDatum? v = some e → e.Sound
  | .bool _, _, _, e, made => by cases made; trivial
  | .int _, _, _, e, made => by cases made; trivial
  | .double x, _, finite, e, made => by
    cases made
    have kept : x.isFinite = true := by simpa [hasNonFinite] using finite
    exact kept
  | .text _, _, _, e, made => by cases made; trivial
  | .instant _, _, _, e, made => by cases made; trivial
  | .record entries, ordered, finite, e, made => by
    simp only [InOrder] at ordered
    simp only [hasNonFinite] at finite
    cases made
    refine ⟨?_, sound_ofEntries entries ordered.2 finite⟩
    rw [ofEntries_eq]
    exact ordered.1.filterMap ofNamed?
  | .list [], _, _, e, made => by cases made; trivial
  | .list (v :: rest), ordered, finite, e, made => by
    simp only [InOrder] at ordered
    simp only [hasNonFinite] at finite
    have sound := sound_ofItems (v :: rest) ordered finite
    simp only [ofDatum?] at made
    split at made
    · cases made
    · cases made
      exact sound
theorem sound_ofItems : ∀ items : List Datum, ItemsInOrder items →
    hasNonFiniteItem items = false → SoundItems (ofItems items)
  | [], _, _ => trivial
  | v :: rest, ordered, finite => by
    simp only [ItemsInOrder] at ordered
    simp only [hasNonFiniteItem, Bool.or_eq_false_iff] at finite
    have later := sound_ofItems rest ordered.2 finite.2
    rw [ofItems_cons]
    cases made : ofItem? v with
    | none => exact later
    | some e =>
      refine ⟨sound_ofDatum? v ordered.1 finite.1 e ?_, later⟩
      unfold ofItem? at made
      split at made
      · cases made
      · exact made
theorem sound_ofEntries : ∀ entries : List (String × Datum), EntriesInOrder entries →
    hasNonFiniteEntry entries = false → SoundFields (ofEntries entries)
  | [], _, _ => trivial
  | (name, v) :: rest, ordered, finite => by
    simp only [EntriesInOrder] at ordered
    simp only [hasNonFiniteEntry, Bool.or_eq_false_iff] at finite
    have later := sound_ofEntries rest ordered.2 finite.2
    rw [ofEntries_cons]
    cases made : ofNamed? name v with
    | none => exact later
    | some e =>
      refine ⟨sound_ofDatum? v ordered.1 finite.1 e ?_, later⟩
      unfold ofNamed? at made
      split at made
      · cases made
      · exact made
end

theorem ofElements_cons {v : Datum} {e : Value} (single : v.list? = none) (made : ofDatum? v = some e)
    (rest : List Value) : ofElements (e.reread :: rest) = (ofValue? e.reread).toList ++ ofElements rest := by
  cases v with
  | list items => cases single
  | _ => cases made; rfl

mutual
/-- A plain value has a stored form, from which it comes back. -/
theorem ofValue?_reread : ∀ v : Datum, v.Plain →
    ∃ e, ofDatum? v = some e ∧ ofValue? e.reread = some v.reread
  | .bool _, _ => ⟨_, rfl, rfl⟩
  | .int _, _ => ⟨_, rfl, rfl⟩
  | .double _, _ => ⟨_, rfl, rfl⟩
  | .text _, _ => ⟨_, rfl, rfl⟩
  | .instant _, _ => ⟨_, rfl, rfl⟩
  | .record entries, plain => by
    simp only [Plain] at plain
    refine ⟨_, rfl, ?_⟩
    simp only [Value.reread, ofValue?, ofFields_reread entries plain, reread]
  | .list [], _ => ⟨_, rfl, rfl⟩
  | .list (v :: rest), plain => by
    simp only [Plain] at plain
    obtain ⟨nonempty, read⟩ := ofElements_reread (v :: rest) plain
    have present := nonempty (by simp)
    refine ⟨.array (ofItems (v :: rest)), ?_, ?_⟩
    · rw [ofDatum?]
      cases shape : ofItems (v :: rest) with
      | nil => exact absurd shape present
      | cons e es => rfl
    · simp only [Value.reread, ofValue?, read, reread]
theorem ofElements_reread : ∀ items : List Datum, PlainItems items →
    (items ≠ [] → ofItems items ≠ []) ∧
      ofElements (Value.rereadItems (ofItems items)) = rereadItems items
  | [], _ => ⟨fun present => absurd rfl present, rfl⟩
  | v :: rest, plain => by
    simp only [PlainItems] at plain
    obtain ⟨e, made, read⟩ := ofValue?_reread v plain.2.1
    obtain ⟨-, later⟩ := ofElements_reread rest plain.2.2
    have item : ofItem? v = some e := by
      rw [ofItem?, plain.1, made]
      rfl
    rw [ofItems_cons, item]
    refine ⟨by simp, ?_⟩
    rw [Option.toList_some, List.singleton_append, Value.rereadItems,
      ofElements_cons plain.1 made, read, later]
    rfl
theorem ofFields_reread : ∀ entries : List (String × Datum), PlainEntries entries →
    ofFields (Value.rereadFields (ofEntries entries)) = rereadEntries entries
  | [], _ => rfl
  | (name, v) :: rest, plain => by
    simp only [PlainEntries] at plain
    obtain ⟨e, made, read⟩ := ofValue?_reread v plain.2.1
    have later := ofFields_reread rest plain.2.2
    have entry : ofNamed? name v = some e := by
      rw [ofNamed?, plain.1, made]
      rfl
    rw [ofEntries_cons, entry]
    simp only [Option.map_some, Option.toList_some, List.singleton_append, Value.rereadFields,
      ofFields, read, later, rereadEntries]
end

end Datum

theorem Document.ordered_ofRecord {r : Record} (ordered : Table.Ordered r) :
    Table.Ordered (Document.ofRecord r) := by
  rw [Document.ofRecord, Value.ofEntries_eq]
  exact ordered.filterMap Value.ofNamed?

theorem Document.find?_ofRecord {r : Record} (ordered : Table.Ordered r) (name : String) :
    Table.find? name (Document.ofRecord r) = (Table.find? name r).bind (Value.ofNamed? name) := by
  rw [Document.ofRecord, Value.ofEntries_eq, Table.find?_filterMap ordered Value.ofNamed?]

theorem Document.ordered_reread {d : Document} (ordered : Table.Ordered d) :
    Table.Ordered d.reread := Value.ordered_reread ordered

theorem Document.find?_reread (name : String) (d : Document) :
    Table.find? name d.reread = (Table.find? name d).map Value.reread := Value.find?_reread name d

namespace Record

theorem ordered_ofDocument {d : Document} (ordered : Table.Ordered d) :
    Table.Ordered (ofDocument d) := by
  rw [ofDocument, Value.ofFields_eq]
  exact ordered.filterMap fun _ => Datum.ofValue?

theorem find?_ofDocument {d : Document} (ordered : Table.Ordered d) (name : String) :
    Table.find? name (ofDocument d) = (Table.find? name d).bind Datum.ofValue? := by
  rw [ofDocument, Value.ofFields_eq, Table.find?_filterMap ordered fun _ => Datum.ofValue?]

def readBack (r : Record) : Record := ofDocument (Document.ofRecord r).reread

def reread (r : Record) : Record := Datum.rereadEntries r

/-- A plain record comes back whole. -/
theorem readBack_plain {r : Record} (plain : Datum.PlainEntries r) : r.readBack = r.reread :=
  Datum.ofFields_reread r plain

theorem ordered_readBack {r : Record} (ordered : Table.Ordered r) : Table.Ordered r.readBack :=
  ordered_ofDocument (Document.ordered_reread (Document.ordered_ofRecord ordered))

theorem find?_readBack {r : Record} (ordered : Table.Ordered r) (name : String) :
    Table.find? name r.readBack =
      (Table.find? name r).bind fun v => (Value.ofNamed? name v).bind fun e =>
        Datum.ofValue? e.reread := by
  rw [readBack, find?_ofDocument (Document.ordered_reread (Document.ordered_ofRecord ordered)),
    Document.find?_reread, Document.find?_ofRecord ordered]
  cases Table.find? name r with
  | none => rfl
  | some v => cases made : Value.ofNamed? name v <;> simp [made]

theorem text?_readBack {r : Record} (ordered : Table.Ordered r) {name : String}
    (named : name.isEmpty = false) : text? r.readBack (.of name) = text? r (.of name) := by
  change (Table.find? name r.readBack).bind Datum.text? = (Table.find? name r).bind Datum.text?
  rw [find?_readBack ordered]
  cases Table.find? name r with
  | none => rfl
  | some v =>
    simp only [Option.bind_some, Value.ofNamed?, named, Bool.false_eq_true, if_false]
    cases v with
    | list items =>
      cases made : Value.ofDatum? (.list items) with
      | none => rfl
      | some e =>
        obtain ⟨stored, rfl⟩ : ∃ stored, e = .array stored := by
          cases items with
          | nil => cases made; exact ⟨_, rfl⟩
          | cons v rest =>
            simp only [Value.ofDatum?] at made
            split at made
            · cases made
            · cases made; exact ⟨_, rfl⟩
        rfl
    | _ => rfl

end Record

end AuditLog
