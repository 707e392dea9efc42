import AuditLog.Proofs.ConditionMeaning
import AuditLog.Proofs.PathLaws
import AuditLog.Proofs.TranslationFailures

/-! Paths through the document that a record is stored as. At the end of a path without empty names
stands the stored form of what the record has there, at every depth; so a test of a field is a test
of the record's own value. Only a list of nothing but lists is there in the record alone. -/
namespace AuditLog

theorem Datum.listsOnly_iff {v : Datum} : v.listsOnly = true ↔
    ∃ items, v = .list items ∧ items ≠ [] ∧ ∀ item ∈ items, ∃ inner, item = .list inner := by
  have isList_iff (item : Datum) : item.isList = true ↔ ∃ inner, item = .list inner := by
    cases item <;> simp [isList, list?]
  cases v with
  | list items => simp [listsOnly, isList_iff]
  | _ => simp [listsOnly]

theorem Value.record_of_document {v : Datum} {fields : List (String × Value)}
    (made : ofDatum? v = some (.document fields)) : ∃ entries, v = .record entries := by
  cases v with
  | record entries => exact ⟨entries, rfl⟩
  | list items =>
    rw [ofDatum?_list] at made
    split at made <;> cases made
  | _ => cases made

namespace Document

section Walk

variable {name : String} {rest : List String} {d : Document}

theorem getAt_inside (further : rest ≠ []) {inner : Document}
    (found : Table.find? name d = some (.document inner)) :
    getAt (name :: rest) d = getAt rest inner := by
  rw [getAt, found]
  exact further

theorem getAt_blocked (further : rest ≠ [])
    (blocked : ∀ inner, Table.find? name d ≠ some (.document inner)) :
    getAt (name :: rest) d = none := by
  rw [getAt]
  · split
    next inner found => exact absurd found (blocked inner)
    next => rfl
  · exact further

end Walk

variable {r : Record}

theorem find?_ofRecord_named (inOrder : (Datum.record r).InOrder) {name : String}
    (named : name ≠ "") :
    Table.find? name (ofRecord r) = (Table.find? name r).bind Value.ofDatum? := by
  have encode : Value.ofNamed? name = Value.ofDatum? := by
    funext v
    simp [Value.ofNamed?, named]
  rw [find?_ofRecord ((Datum.inOrder_entrywise r).mp inOrder).1, encode]

/-- The walk through the document goes on where that through the record does: into records. -/
theorem getAt_ofRecord (inOrder : (Datum.record r).InOrder) {path : List String}
    (named : ∀ name ∈ path, name ≠ "") :
    getAt path (ofRecord r) = (Record.getAt path r).bind Value.ofDatum? := by
  induction path, r using Record.walk with
  | empty r => rfl
  | last name r => exact find?_ofRecord_named inOrder (named name List.mem_cons_self)
  | inside name rest r inner further found ih =>
    obtain ⟨here, later⟩ := List.forall_mem_cons.mp named
    have stored : Table.find? name (ofRecord r) = some (.document (ofRecord inner)) := by
      rw [find?_ofRecord_named inOrder here, found]
      rfl
    rw [getAt_inside further stored, Record.getAt_inside further found]
    exact ih (inOrder.found found) later
  | blocked name rest r further blocked =>
    obtain ⟨here, -⟩ := List.forall_mem_cons.mp named
    rw [Record.getAt_blocked further blocked]
    apply getAt_blocked further
    intro inner found
    rw [find?_ofRecord_named inOrder here] at found
    obtain ⟨v, known, made⟩ := Option.bind_eq_some_iff.mp found
    obtain ⟨entries, rfl⟩ := Value.record_of_document made
    exact blocked entries known

/-- At a path without empty names the document of a record has the stored form of what the record
has there. It has nothing where the record has nothing or a list of nothing but lists, and a test
added to a filter sees on the document just that stored form. -/
theorem stored_at_path (inOrder : (Datum.record r).InOrder) {path : Path}
    (named : ∀ name ∈ path.segments, name ≠ "") :
    get? (ofRecord r) path = (Record.get? r path).bind Value.ofDatum? ∧
      (get? (ofRecord r) path = none ↔ Record.get? r path = none ∨
        ∃ items, Record.get? r path = some (.list items) ∧ items ≠ [] ∧
          ∀ item ∈ items, ∃ inner, item = .list inner) ∧
      ∀ (f : Filter) (test : Test), (f.add path test).admits (ofRecord r) =
        (f.admits (ofRecord r) && test.matches? ((Record.get? r path).bind Value.ofDatum?)) := by
  have stored : get? (ofRecord r) path = (Record.get? r path).bind Value.ofDatum? :=
    getAt_ofRecord inOrder named
  refine ⟨stored, ?_, ?_⟩
  · rw [stored]
    cases found : Record.get? r path with
    | none => simp
    | some v => simp [Value.ofDatum?_isNone, Datum.listsOnly_iff]
  · intro f test
    rw [Filter.admits_add, stored]

def corner : Record :=
  [("", .int 0), ("at", .record [("tags", .list [.list [.int 2]]), ("x", .int 1)])]

/-- Inside a record beside a nameless entry: a number is found, a list of a list is not. -/
theorem coordinate_found_tags_missing :
    get? (ofRecord corner) (.parse "at.x") = some (.int 1) ∧
      get? (ofRecord corner) (.parse "at.tags") = none ∧
      (Filter.everything.add (.parse "at.x") (.equal (.int 1))).admits (ofRecord corner) = true := by
  have inOrder : (Datum.record corner).InOrder :=
    ⟨by decide, trivial, ⟨by decide, ⟨⟨trivial, trivial⟩, trivial⟩, trivial, trivial⟩, trivial⟩
  have number : ∀ name ∈ (Path.parse "at.x").segments, name ≠ "" := by decide
  have tags : ∀ name ∈ (Path.parse "at.tags").segments, name ≠ "" := by decide
  obtain ⟨found, -, tested⟩ := stored_at_path inOrder number
  obtain ⟨-, missing, -⟩ := stored_at_path inOrder tags
  refine ⟨found, missing.mpr (.inr ⟨[.list [.int 2]], rfl, by simp, by simp⟩), ?_⟩
  rw [tested, Filter.admits_everything]
  rfl

end Document
end AuditLog
