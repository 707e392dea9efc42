import AuditLog.Proofs.RecordCodec
import AuditLog.Proofs.RecordPaths

/-! What a path leads to after a value was set at a path or taken out there. A value that was not there
before can be taken out again, and nothing else has changed if the record that it was put in
existed; records that were made on the way stay. -/
namespace AuditLog

namespace Datum

theorem inOrder_entrywise : Record.Entrywise InOrder := by
  intro entries
  rw [InOrder, entriesInOrder_iff]

theorem InOrder.found {entries : List (String × Datum)} (inOrder : (Datum.record entries).InOrder)
    {name : String} {v : Datum} (found : Table.find? name entries = some v) : v.InOrder :=
  ((inOrder_entrywise entries).mp inOrder).2 _ (Table.mem_of_find? found)

end Datum

namespace Record

theorem follow_record {rest : List String} (further : rest ≠ []) (inner : Record) :
    follow rest (.record inner) = getAt rest inner := by
  cases rest with
  | nil => exact absurd rfl further
  | cons name rest => rfl

theorem record_of_follow {rest : List String} {v : Datum} {parent : Record}
    (found : follow rest v = some (.record parent)) : ∃ inner, v = .record inner := by
  cases rest with
  | nil => exact ⟨parent, Option.some.inj found⟩
  | cons name rest =>
    obtain ⟨inner, record, -⟩ := Option.bind_eq_some_iff.mp found
    cases v with
    | record entries => exact ⟨entries, rfl⟩
    | _ => cases record

/-! Taking out walks as looking up does: past the first segment only into a record. -/

section Take

variable {name : String} {rest : List String} {r : Record}

theorem takeAt_inside (further : rest ≠ []) {inner : Record}
    (found : Table.find? name r = some (.record inner)) :
    takeAt (name :: rest) r =
      ((takeAt rest inner).1, Table.insert name (.record (takeAt rest inner).2) r) := by
  rw [takeAt, found]
  exact further

theorem takeAt_blocked (further : rest ≠ [])
    (blocked : ∀ inner, Table.find? name r ≠ some (.record inner)) :
    takeAt (name :: rest) r = (none, r) := by
  rw [takeAt]
  · split
    next inner found => exact absurd found (blocked inner)
    next => rfl
  · exact further

/-- What is to be shown of a walk along a path, where the path ends, goes on into a record or is
blocked by something else. -/
theorem walk {motive : List String → Record → Prop} (empty : ∀ r, motive [] r)
    (last : ∀ name r, motive [name] r)
    (inside : ∀ name rest r inner, rest ≠ [] → Table.find? name r = some (.record inner) →
      motive rest inner → motive (name :: rest) r)
    (blocked : ∀ name rest r, rest ≠ [] → (∀ inner, Table.find? name r ≠ some (.record inner)) →
      motive (name :: rest) r)
    (path : List String) (r : Record) : motive path r := by
  induction path generalizing r with
  | nil => exact empty r
  | cons name rest ih =>
    cases rest with
    | nil => exact last name r
    | cons next rest =>
      by_cases record : ∃ inner, Table.find? name r = some (.record inner)
      · obtain ⟨inner, found⟩ := record
        exact inside name _ r inner (List.cons_ne_nil next rest) found (ih inner)
      · exact blocked name _ r (List.cons_ne_nil next rest) (not_exists.mp record)

end Take

theorem getAt_blocked {name : String} {rest : List String} {r : Record} (further : rest ≠ [])
    (blocked : ∀ inner, Table.find? name r ≠ some (.record inner)) :
    getAt (name :: rest) r = none := by
  rw [getAt_cons, Option.bind_eq_none_iff]
  intro v found
  refine follow_of_record? ?_ further
  cases v with
  | record entries => exact absurd found (blocked entries)
  | _ => rfl

theorem getAt_inside {name : String} {rest : List String} {r inner : Record} (further : rest ≠ [])
    (found : Table.find? name r = some (.record inner)) :
    getAt (name :: rest) r = getAt rest inner := by
  rw [getAt_cons, found]
  exact follow_record further inner

theorem setAt_inside {name : String} {rest : List String} {r inner : Record} (further : rest ≠ [])
    (found : Table.find? name r = some (.record inner)) (v : Datum) :
    setAt (name :: rest) v r = Table.insert name (.record (setAt rest v inner)) r := by
  rw [setAt, found]
  exact further

theorem takeAt_fst (path : List String) (r : Record) : (takeAt path r).1 = getAt path r := by
  induction path, r using walk with
  | empty r => rfl
  | last name r => rfl
  | inside name rest r inner further found ih =>
    rw [takeAt_inside further found, getAt_inside further found]
    exact ih
  | blocked name rest r further blocked =>
    rw [takeAt_blocked further blocked, getAt_blocked further blocked]

/-- Nothing is left at the path or beyond. -/
theorem getAt_takeAt_below {path : List String} (present : path ≠ []) (beyond : List String)
    (r : Record) : getAt (path ++ beyond) (takeAt path r).2 = none := by
  induction path, r using walk with
  | empty r => exact absurd rfl present
  | last name r =>
    rw [List.cons_append, getAt_cons, takeAt, Table.find?_erase, if_pos rfl]
    rfl
  | inside name rest r inner further found ih =>
    have longer : rest ++ beyond ≠ [] := List.append_ne_nil_of_left_ne_nil further beyond
    have stands : Table.find? name (Table.insert name (.record (takeAt rest inner).2) r) =
        some (.record (takeAt rest inner).2) := by
      rw [Table.find?_insert, if_pos rfl]
    rw [takeAt_inside further found, List.cons_append, getAt_inside longer stands]
    exact ih further
  | blocked name rest r further blocked =>
    have longer : rest ++ beyond ≠ [] := List.append_ne_nil_of_left_ne_nil further beyond
    rw [takeAt_blocked further blocked]
    exact getAt_blocked longer blocked

/-- Nothing changes at a path that is neither on the way nor beyond. -/
theorem getAt_takeAt_apart {path other : List String} (r : Record) (below : ¬ path <+: other)
    (above : ¬ other <+: path) : getAt other (takeAt path r).2 = getAt other r := by
  induction path, r using walk generalizing other with
  | empty r => rfl
  | last name r =>
    cases other with
    | nil => exact absurd List.nil_prefix above
    | cons name' rest' =>
      have different : name' ≠ name := by
        rintro rfl
        exact below (List.prefix_cons_inj _ |>.mpr List.nil_prefix)
      rw [getAt_cons, getAt_cons, takeAt, Table.find?_erase, if_neg different]
  | inside name rest r inner further found ih =>
    cases other with
    | nil => exact absurd List.nil_prefix above
    | cons name' rest' =>
      rw [takeAt_inside further found, getAt_cons, getAt_cons, Table.find?_insert]
      by_cases same : name' = name
      · subst same
        rw [List.prefix_cons_inj] at below above
        have further' : rest' ≠ [] := by
          rintro rfl
          exact above List.nil_prefix
        rw [if_pos rfl, found, Option.bind_some, Option.bind_some, follow_record further',
          follow_record further']
        exact ih below above
      · rw [if_neg same]
  | blocked name rest r further blocked => rw [takeAt_blocked further blocked]

theorem takeAt_absent {path : List String} {r : Record} (inOrder : (Datum.record r).InOrder)
    (absent : getAt path r = none) : (takeAt path r).2 = r := by
  induction path, r using walk with
  | empty r => rfl
  | last name r => exact Table.erase_absent inOrder.1 absent
  | inside name rest r inner further found ih =>
    rw [getAt_inside further found] at absent
    rw [takeAt_inside further found, ih (inOrder.found found) absent]
    exact Table.insert_found inOrder.1 found
  | blocked name rest r further blocked => rw [takeAt_blocked further blocked]

/-- Taking out undoes setting, where there was a record to put the value in and nothing there. -/
theorem takeAt_setAt {path : List String} {r parent : Record}
    (inOrder : (Datum.record r).InOrder) (present : path ≠ []) (absent : getAt path r = none)
    (within : follow path.dropLast (.record r) = some (.record parent)) (v : Datum) :
    (takeAt path (setAt path v r)).2 = r := by
  induction path, r using walk with
  | empty r => exact absurd rfl present
  | last name r => exact Table.erase_insert inOrder.1 v absent
  | inside name rest r inner further found ih =>
    rw [getAt_inside further found] at absent
    rw [List.dropLast_cons_of_ne_nil further] at within
    change getAt _ r = _ at within
    rw [getAt_cons, found] at within
    have stands : Table.find? name (setAt (name :: rest) v r) =
        some (.record (setAt rest v inner)) := by
      rw [setAt_inside further found v, Table.find?_insert, if_pos rfl]
    rw [takeAt_inside further stands, ih (inOrder.found found) further absent within,
      setAt_inside further found v, Table.insert_insert inOrder.1]
    exact Table.insert_found inOrder.1 found
  | blocked name rest r further blocked =>
    rw [List.dropLast_cons_of_ne_nil further] at within
    change getAt _ r = _ at within
    rw [getAt_cons, Option.bind_eq_some_iff] at within
    obtain ⟨w, found, leads⟩ := within
    obtain ⟨inner, rfl⟩ := record_of_follow leads
    exact absurd found (blocked inner)

/-- What is found after a value was set at a path. -/
structure AfterSet (r after : Record) (path : Path) (v : Datum) : Prop where
  below : ∀ rest, get? after ⟨path.segments ++ rest⟩ = follow rest v
  above : ∀ other : Path, other.segments ≠ [] → other.segments <+: path.segments →
    other ≠ path → ∃ inner, get? after other = some (.record inner)
  elsewhere : ∀ other : Path, ¬ path.segments <+: other.segments →
    (other.segments = [] ∨ ¬ other.segments <+: path.segments) → get? after other = get? r other

/-- What is found after whatever stood at a path was taken out. -/
structure AfterRemove (r after : Record) (path : Path) : Prop where
  below : ∀ rest, get? after ⟨path.segments ++ rest⟩ = none
  elsewhere : ∀ other, ¬ OneWay path other → get? after other = get? r other

theorem afterSet {path : Path} (present : path.segments ≠ []) (r : Record) (v : Datum) :
    AfterSet r (set r path v) path v where
  below rest := getAt_setAt_below v r present
  above := by
    rintro ⟨other⟩ present' ⟨rest, leads⟩ different
    cases rest with
    | nil =>
      rw [List.append_nil] at leads
      exact absurd (congrArg Path.mk leads) different
    | cons name rest =>
      rw [get?, set, ← leads]
      exact ⟨_, getAt_setAt_above v r present' name⟩
  elsewhere := by
    rintro ⟨other⟩ below above
    rcases above with rfl | above
    · rfl
    · exact getAt_setAt_apart v r below above

theorem afterRemove {path : Path} (present : path.segments ≠ []) (r : Record) :
    AfterRemove r (remove r path) path where
  below rest := getAt_takeAt_below present rest r
  elsewhere other apart := by
    obtain ⟨below, above⟩ := not_or.mp apart
    exact getAt_takeAt_apart r below above

/-- Setting and removing at a path that is not empty. -/
theorem path_laws {r : Record} (inOrder : (Datum.record r).InOrder) {path : Path}
    (present : path.segments ≠ []) (v : Datum) :
    AfterSet r (set r path v) path v ∧ set r ⟨[]⟩ v = r ∧
      (take r path).1 = get? r path ∧ AfterRemove r (remove r path) path ∧
      (get? r path = none → remove r path = r ∧
        ∀ parent, follow path.segments.dropLast (.record r) = some (.record parent) →
          remove (set r path v) path = r) := by
  refine ⟨afterSet present r v, rfl, takeAt_fst _ r, afterRemove present r, ?_⟩
  intro absent
  refine ⟨takeAt_absent inOrder absent, ?_⟩
  intro parent within
  exact takeAt_setAt inOrder present absent within v

def standing : Record := [("at", .record [("x", .int 1)]), ("who", .text "Alice")]

/-- A new coordinate beside another one, put in and taken out again. -/
theorem coordinate_taken_out :
    (Datum.record standing).InOrder ∧ get? standing (.parse "at.y") = none ∧
      get? (set standing (.parse "at.y") (.int 2)) (.parse "at.y") = some (.int 2) ∧
      get? (set standing (.parse "at.y") (.int 2)) (.parse "at.x") = some (.int 1) ∧
      remove (set standing (.parse "at.y") (.int 2)) (.parse "at.y") = standing := by
  have inOrder : (Datum.record standing).InOrder :=
    ⟨by decide, ⟨⟨by decide, trivial, trivial⟩, trivial, trivial⟩⟩
  have present : (Path.parse "at.y").segments ≠ [] := by decide
  have absent : get? standing (.parse "at.y") = none := rfl
  obtain ⟨after, -, -, -, undone⟩ := path_laws inOrder present (.int 2)
  refine ⟨inOrder, absent, after.below [], ?_, (undone absent).2 _ rfl⟩
  exact after.elsewhere (.parse "at.x") (by decide) (.inr (by decide))

end Record
end AuditLog
