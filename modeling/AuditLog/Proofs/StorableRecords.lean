import AuditLog.Proofs.RecordCodec

/-! What a record keeps on its way through a document. Entries without a name, lists directly
inside lists and lists of nothing but lists are left out at every depth and all else comes back,
so a record comes back whole exactly when it has none of these. Doubles keep all their bits. -/
namespace AuditLog

namespace Datum

/-- A value stands inside itself and inside each record and list around it. -/
inductive Inside : Datum → Datum → Prop
  | here (v : Datum) : Inside v v
  | entry {v w : Datum} {name : String} {entries : List (String × Datum)}
      (member : (name, w) ∈ entries) (deeper : Inside v w) : Inside v (.record entries)
  | item {v w : Datum} {items : List Datum}
      (member : w ∈ items) (deeper : Inside v w) : Inside v (.list items)

/-- Every entry of every record inside has a name, and no list inside has a list as an item. -/
structure Storable (v : Datum) : Prop where
  named : ∀ entries, Inside (.record entries) v → ∀ entry ∈ entries, entry.1 ≠ ""
  flat : ∀ items, Inside (.list items) v → ∀ inner, .list inner ∉ items

def isList (v : Datum) : Bool := v.list?.isSome

/-- A list that has items, all of which are lists. -/
def listsOnly : Datum → Bool
  | .list items => !items.isEmpty && items.all isList
  | _ => false

mutual
/-- The value without nameless entries, lists inside lists and lists of nothing but lists. -/
def pruned : Datum → Datum
  | .record entries => .record (prunedEntries entries)
  | .list items => .list (prunedItems items)
  | v => v
def prunedEntries : List (String × Datum) → List (String × Datum)
  | [] => []
  | (name, v) :: rest =>
    if name = "" ∨ v.listsOnly then prunedEntries rest else (name, pruned v) :: prunedEntries rest
def prunedItems : List Datum → List Datum
  | [] => []
  | v :: rest => if v.isList then prunedItems rest else pruned v :: prunedItems rest
end

section Storable

theorem storable_record {entries : List (String × Datum)} :
    Storable (.record entries) ↔ ∀ entry ∈ entries, entry.1 ≠ "" ∧ entry.2.Storable := by
  constructor
  · intro storable entry member
    refine ⟨storable.named entries (.here _) entry member, ?_, ?_⟩
    · intro inner deeper
      exact storable.named inner (.entry member deeper)
    · intro inner deeper
      exact storable.flat inner (.entry member deeper)
  · intro each
    refine ⟨?_, ?_⟩
    · intro inner inside entry member
      cases inside with
      | here => exact (each entry member).1
      | entry outer deeper => exact (each _ outer).2.named inner deeper entry member
    · intro inner inside
      cases inside with
      | entry outer deeper => exact (each _ outer).2.flat inner deeper

theorem storable_list {items : List Datum} :
    Storable (.list items) ↔ ∀ v ∈ items, v.isList = false ∧ v.Storable := by
  constructor
  · intro storable v member
    refine ⟨?_, ?_, ?_⟩
    · cases v with
      | list inner => exact absurd member (storable.flat items (.here _) inner)
      | _ => rfl
    · intro inner deeper
      exact storable.named inner (.item member deeper)
    · intro inner deeper
      exact storable.flat inner (.item member deeper)
  · intro each
    refine ⟨?_, ?_⟩
    · intro inner inside
      cases inside with
      | item outer deeper => exact (each _ outer).2.named inner deeper
    · intro inner inside
      cases inside with
      | here =>
        intro nested member
        cases (each _ member).1
      | item outer deeper => exact (each _ outer).2.flat inner deeper

/-- Neither a record nor a list. -/
theorem storable_leaf {v : Datum} (leaf : v.isPrimitive = true) : v.Storable := by
  constructor <;> intro inner inside <;> cases inside <;> cases leaf

end Storable

theorem prunedItems_eq (items : List Datum) :
    prunedItems items = (items.filter fun v => !v.isList).map pruned := by
  induction items with
  | nil => rfl
  | cons v rest ih =>
    rw [prunedItems, ih, List.filter_cons]
    cases v.isList <;> rfl

def isDropped (entry : String × Datum) : Bool := entry.1 = "" || entry.2.listsOnly

theorem prunedEntries_eq (entries : List (String × Datum)) :
    prunedEntries entries =
      (entries.filter fun entry => !isDropped entry).map fun entry => (entry.1, entry.2.pruned) := by
  induction entries with
  | nil => rfl
  | cons entry rest ih =>
    obtain ⟨name, v⟩ := entry
    rw [prunedEntries, ih, List.filter_cons]
    by_cases dropped : name = "" ∨ v.listsOnly = true
    · have marked : isDropped (name, v) = true := by simpa [isDropped] using dropped
      rw [if_pos dropped, marked]
      rfl
    · have kept : isDropped (name, v) = false := by simpa [isDropped] using dropped
      rw [if_neg dropped, kept]
      rfl

/-- Where some values are left out and others changed, nothing is left out or changed. -/
theorem map_filter_eq_self_iff {α : Type} {keep : α → Bool} {f : α → α} {xs : List α} :
    (xs.filter keep).map f = xs ↔ ∀ x ∈ xs, keep x = true ∧ f x = x := by
  constructor
  · intro same
    have size := congrArg List.length same
    rw [List.length_map, List.length_filter_eq_length_iff] at size
    rw [List.filter_eq_self.mpr size] at same
    have fixed := List.map_inj_left.mp (same.trans (List.map_id xs).symm)
    intro x member
    exact ⟨size x member, fixed x member⟩
  · intro each
    rw [List.filter_eq_self.mpr fun x member => (each x member).1]
    exact (List.map_congr_left fun x member => (each x member).2).trans (List.map_id xs)

/-- Induction on a value, in which all that stands directly inside has the property. -/
@[elab_as_elim]
theorem inductionOn {motive : Datum → Prop} (v : Datum)
    (leaf : ∀ v, v.isPrimitive = true → motive v)
    (record : ∀ entries : List (String × Datum), (∀ entry ∈ entries, motive entry.2) →
      motive (.record entries))
    (list : ∀ items : List Datum, (∀ v ∈ items, motive v) → motive (.list items)) : motive v :=
  match v with
  | .bool _ | .int _ | .double _ | .text _ | .instant _ => leaf _ rfl
  | .record entries => record entries fun (_, w) _ => inductionOn w leaf record list
  | .list items => list items fun w _ => inductionOn w leaf record list
termination_by sizeOf v
decreasing_by
  · have smaller := List.sizeOf_lt_of_mem ‹_ ∈ entries›
    simp only [Prod.mk.sizeOf_spec, Datum.record.sizeOf_spec] at smaller ⊢
    omega
  · have smaller := List.sizeOf_lt_of_mem ‹_ ∈ items›
    simp only [Datum.list.sizeOf_spec]
    omega

theorem storable_of_listsOnly {v : Datum} (lists : v.listsOnly = true) : ¬ v.Storable := by
  intro storable
  cases v with
  | list items =>
    cases items with
    | nil => cases lists
    | cons w rest =>
      have nested : w.isList = true := by
        simp only [listsOnly, List.all_cons, Bool.and_eq_true] at lists
        exact lists.2.1
      have single := (storable_list.mp storable w (by simp)).1
      cases nested.symm.trans single
  | _ => cases lists

theorem isDropped_eq_false {name : String} {v : Datum} :
    isDropped (name, v) = false ↔ name ≠ "" ∧ v.listsOnly = false := by
  simp [isDropped]

/-- Pruning changes a value exactly when it is not storable. -/
theorem pruned_eq_self_iff (v : Datum) : v.pruned = v ↔ v.Storable := by
  induction v using inductionOn with
  | leaf v leaf =>
    have same : v.pruned = v := by
      cases v with
      | record | list => cases leaf
      | _ => rfl
    exact ⟨fun _ => storable_leaf leaf, fun _ => same⟩
  | record entries ih =>
    rw [pruned, Datum.record.injEq, prunedEntries_eq, map_filter_eq_self_iff, storable_record]
    apply forall₂_congr
    rintro ⟨name, v⟩ member
    rw [Bool.not_eq_true', isDropped_eq_false, Prod.mk.injEq, ih _ member]
    constructor
    · rintro ⟨⟨named, -⟩, -, storable⟩
      exact ⟨named, storable⟩
    · rintro ⟨named, storable⟩
      have kept := mt storable_of_listsOnly (not_not.mpr storable)
      exact ⟨⟨named, Bool.eq_false_of_not_eq_true kept⟩, rfl, storable⟩
  | list items ih =>
    rw [pruned, Datum.list.injEq, prunedItems_eq, map_filter_eq_self_iff, storable_list]
    apply forall₂_congr
    intro v member
    rw [Bool.not_eq_true', ih v member]

end Datum

namespace Value

open Datum

theorem ofItems_eq (items : List Datum) : ofItems items = items.filterMap ofItem? := by
  induction items with
  | nil => rfl
  | cons v rest ih =>
    rw [ofItems_cons, ih, List.filterMap_cons]
    cases ofItem? v <;> rfl

/-- What an item of an array stands for; an array among them stands for nothing. -/
def element? : Value → Option Datum
  | .array _ => none
  | v => ofValue? v

theorem ofElements_eq (items : List Value) : ofElements items = items.filterMap element? := by
  induction items with
  | nil => rfl
  | cons v rest ih =>
    have step : ofElements (v :: rest) = (element? v).toList ++ ofElements rest := by
      cases v <;> rfl
    rw [step, ih, List.filterMap_cons]
    cases element? v <;> rfl

theorem ofItem?_eq_none_iff (v : Datum) : ofItem? v = none ↔ v.isList = true := by
  cases v <;> simp [ofItem?, isList, list?, ofDatum?]

theorem ofDatum?_list (items : List Datum) :
    ofDatum? (.list items) =
      if (Datum.list items).listsOnly then none else some (.array (ofItems items)) := by
  cases items with
  | nil => rfl
  | cons v rest =>
    have none_kept : ofItems (v :: rest) = [] ↔ (Datum.list (v :: rest)).listsOnly = true := by
      rw [ofItems_eq, List.filterMap_eq_nil_iff]
      simp only [ofItem?_eq_none_iff, listsOnly, List.isEmpty_cons, Bool.not_false, Bool.true_and,
        List.all_eq_true]
    rw [ofDatum?]
    split
    next empty => rw [if_pos (none_kept.mp empty)]
    next present => rw [if_neg (mt none_kept.mpr present)]

end Value

namespace Datum

open Value

/-- What comes back of a value from its stored form: nothing of a list of nothing but lists,
and of any other value what pruning leaves. -/
def Returns (v : Datum) : Prop :=
  (ofDatum? v).bind ofValue? = if v.listsOnly then none else some v.pruned

theorem ofFields_ofEntries {entries : List (String × Datum)}
    (each : ∀ entry ∈ entries, entry.2.Returns) :
    ofFields (ofEntries entries) = prunedEntries entries := by
  rw [ofFields_eq, ofEntries_eq, List.filterMap_filterMap, prunedEntries_eq,
    ← List.filterMap_eq_map, List.filterMap_filter]
  apply List.filterMap_congr
  rintro ⟨name, v⟩ member
  have returns := each _ member
  unfold Returns at returns
  by_cases nameless : name = ""
  · simp [ofNamed?, isDropped, nameless]
  · have named : ofNamed? name v = ofDatum? v := by simp [ofNamed?, nameless]
    have through : ((ofNamed? name v).map fun e => (name, e)).bind
        (fun field => (ofValue? field.2).map fun w => (field.1, w)) =
          ((ofDatum? v).bind ofValue?).map fun w => (name, w) := by
      rw [named]
      cases ofDatum? v <;> rfl
    rw [through, returns]
    cases lists : v.listsOnly <;> simp [isDropped, nameless, lists]

theorem ofElements_ofItems {items : List Datum} (each : ∀ v ∈ items, v.Returns) :
    ofElements (ofItems items) = prunedItems items := by
  rw [ofElements_eq, ofItems_eq, List.filterMap_filterMap, prunedItems_eq,
    ← List.filterMap_eq_map, List.filterMap_filter]
  apply List.filterMap_congr
  intro v member
  have returns := each v member
  unfold Returns at returns
  cases v with
  | list => rfl
  | _ => exact returns

/-- The stored form of a value stands for the pruned value. -/
theorem returns (v : Datum) : v.Returns := by
  unfold Returns
  induction v using inductionOn with
  | leaf v leaf =>
    cases v with
    | record | list => cases leaf
    | _ => rfl
  | record entries ih =>
    change some (Datum.record (ofFields (ofEntries entries))) = some (.record (prunedEntries entries))
    rw [ofFields_ofEntries ih]
  | list items ih =>
    rw [ofDatum?_list]
    split
    · rfl
    · change some (Datum.list (ofElements (ofItems items))) = some (.list (prunedItems items))
      rw [ofElements_ofItems ih]

theorem isList_pruned (v : Datum) : v.pruned.isList = v.isList := by
  cases v <;> rfl

theorem listsOnly_pruned (items : List Datum) :
    (Datum.list (prunedItems items)).listsOnly = false := by
  cases kept : prunedItems items with
  | nil => rfl
  | cons w rest =>
    have member : w ∈ prunedItems items := by simp [kept]
    rw [prunedItems_eq] at member
    obtain ⟨v, single, rfl⟩ := List.mem_map.mp member
    have other : v.isList = false := by simpa using (List.mem_filter.mp single).2
    simp [listsOnly, isList_pruned, other]

theorem ofDatum?_of_listsOnly {v : Datum} (lists : v.listsOnly = true) : ofDatum? v = none := by
  cases v with
  | list items => rw [ofDatum?_list, if_pos lists]
  | _ => cases lists

theorem ofEntries_pruned {entries : List (String × Datum)}
    (each : ∀ entry ∈ entries, entry.2.listsOnly = false →
      ofDatum? entry.2.pruned = ofDatum? entry.2) :
    ofEntries (prunedEntries entries) = ofEntries entries := by
  rw [ofEntries_eq, ofEntries_eq, prunedEntries_eq, List.filterMap_map, List.filterMap_filter]
  apply List.filterMap_congr
  rintro ⟨name, v⟩ member
  by_cases nameless : name = ""
  · simp [ofNamed?, isDropped, nameless]
  cases lists : v.listsOnly with
  | true => simp [ofNamed?, isDropped, lists, ofDatum?_of_listsOnly lists]
  | false => simp [ofNamed?, isDropped, nameless, lists, each _ member lists]

theorem ofItems_pruned {items : List Datum}
    (each : ∀ v ∈ items, v.listsOnly = false → ofDatum? v.pruned = ofDatum? v) :
    ofItems (prunedItems items) = ofItems items := by
  rw [ofItems_eq, ofItems_eq, prunedItems_eq, List.filterMap_map, List.filterMap_filter]
  apply List.filterMap_congr
  intro v member
  cases v with
  | list => rfl
  | _ => exact each _ member rfl

/-- A pruned value has the same stored form. -/
theorem ofDatum?_pruned (v : Datum) (some_kept : v.listsOnly = false) :
    ofDatum? v.pruned = ofDatum? v := by
  induction v using inductionOn with
  | leaf v leaf =>
    cases v with
    | record | list => cases leaf
    | _ => rfl
  | record entries ih =>
    change some (Value.document (ofEntries (prunedEntries entries))) =
      some (.document (ofEntries entries))
    rw [ofEntries_pruned ih]
  | list items ih =>
    rw [pruned, ofDatum?_list, ofDatum?_list, listsOnly_pruned, some_kept, ofItems_pruned ih]

end Datum

namespace Record

def pruned (r : Record) : Record := Datum.prunedEntries r

/-- A record comes back from its document as it was exactly when it is storable at every depth.
Any record comes back pruned, and has the same document then. -/
theorem ofDocument_ofRecord (r : Record) :
    (ofDocument (Document.ofRecord r) = r ↔ Datum.Storable (.record r)) ∧
      ofDocument (Document.ofRecord r) = r.pruned ∧
      Document.ofRecord (ofDocument (Document.ofRecord r)) = Document.ofRecord r := by
  have back : ofDocument (Document.ofRecord r) = r.pruned :=
    Datum.ofFields_ofEntries fun entry _ => entry.2.returns
  have again : Document.ofRecord r.pruned = Document.ofRecord r :=
    Datum.ofEntries_pruned fun entry _ => entry.2.ofDatum?_pruned
  refine ⟨?_, back, ?_⟩
  · rw [back, ← Datum.pruned_eq_self_iff, Datum.pruned, Datum.record.injEq]
    rfl
  · rw [back, again]

/-- A nameless entry and a list inside a list are left out; an empty list stays. -/
example : ofDocument (Document.ofRecord [("", .int 1), ("a", .list [.int 2, .list []]),
    ("b", .list [.list []]), ("c", .list [])]) = [("a", .list [.int 2]), ("c", .list [])] := rfl

end Record
end AuditLog
