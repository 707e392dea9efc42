import AuditLog.Proofs.Tables
import AuditLog.Record
import Mathlib.Data.List.Induction

/-! What is found in a record after a value was set at a path. Along the path and beyond it stands
the value, above it a record, and everywhere else what stood there before. After a row of such steps
only the later ones on the same way matter, and nothing is found that none of them led to. -/
namespace AuditLog.Record

/-- What stands in a value at the end of further segments. -/
def follow : List String → Datum → Option Datum
  | [], v => some v
  | name :: rest, v => v.record?.bind (getAt (name :: rest))

/-- The record under a name, or an empty one where something else or nothing stands. -/
def inner (name : String) (r : Record) : Record :=
  ((Table.find? name r).bind Datum.record?).getD []

/-- What a name gets when a value is set at `rest` below it. -/
def placed (rest : List String) (v : Datum) (old : Record) : Datum :=
  match rest with
  | [] => v
  | name :: rest => .record (setAt (name :: rest) v old)

theorem getAt_cons (name : String) (rest : List String) (r : Record) :
    getAt (name :: rest) r = (Table.find? name r).bind (follow rest) := by
  cases rest with
  | nil =>
    rw [getAt]
    cases Table.find? name r <;> rfl
  | cons next rest =>
    rw [getAt]
    · cases Table.find? name r with
      | none => rfl
      | some v => cases v <;> rfl
    · simp

theorem setAt_cons (name : String) (rest : List String) (v : Datum) (r : Record) :
    setAt (name :: rest) v r = Table.insert name (placed rest v (inner name r)) r := by
  cases rest with
  | nil => rfl
  | cons next rest =>
    rw [setAt, placed, inner]
    · cases Table.find? name r with
      | none => rfl
      | some v => cases v <;> rfl
    · simp

theorem follow_of_record? {v : Datum} {rest : List String} (leaf : v.record? = none)
    (further : rest ≠ []) : follow rest v = none := by
  cases rest with
  | nil => exact absurd rfl further
  | cons name rest => rw [follow, leaf]; rfl

theorem getAt_empty (path : List String) : getAt path [] = none := by
  cases path with
  | nil => rfl
  | cons name rest => rw [getAt_cons]; rfl

theorem getAt_inner (name : String) {rest : List String} (further : rest ≠ []) (r : Record) :
    getAt rest (inner name r) = getAt (name :: rest) r := by
  obtain ⟨next, rest, rfl⟩ := List.exists_cons_of_ne_nil further
  rw [getAt_cons name, inner]
  cases Table.find? name r with
  | none => exact getAt_empty _
  | some v =>
    cases v with
    | record entries => rfl
    | _ => exact getAt_empty _

section Laws

variable {path other rest : List String} (v : Datum) (r : Record)

theorem find?_setAt (name : String) : Table.find? name (setAt path v r) =
    match path with
    | [] => Table.find? name r
    | first :: rest =>
      if name = first then some (placed rest v (inner first r)) else Table.find? name r := by
  cases path with
  | nil => rfl
  | cons first rest => rw [setAt_cons, Table.find?_insert]

/-- At the path stands the value, and beyond it what the value has there. -/
theorem getAt_setAt_below (further : path ≠ []) :
    getAt (path ++ rest) (setAt path v r) = follow rest v := by
  induction path generalizing r with
  | nil => exact absurd rfl further
  | cons name later ih =>
    rw [List.cons_append, getAt_cons, find?_setAt]
    simp only [if_true, Option.bind_some]
    cases later with
    | nil => rfl
    | cons next later => exact ih (inner name r) (List.cons_ne_nil _ _)

/-- Above the path stand records. -/
theorem getAt_setAt_above (present : path ≠ []) (name : String) :
    getAt path (setAt (path ++ name :: rest) v r) =
      some (.record (setAt (name :: rest) v (((getAt path r).bind Datum.record?).getD []))) := by
  induction path generalizing r with
  | nil => exact absurd rfl present
  | cons first later ih =>
    rw [List.cons_append, getAt_cons, find?_setAt]
    simp only [if_true, Option.bind_some]
    cases later with
    | nil =>
      rw [getAt_cons]
      have old : (Table.find? first r).bind (follow []) = Table.find? first r := by
        cases Table.find? first r <;> rfl
      rw [old]
      rfl
    | cons next later =>
      rw [← getAt_inner first (List.cons_ne_nil next later)]
      exact ih (inner first r) (List.cons_ne_nil next later)

/-- Nothing changes at a path that is neither on the way nor beyond. -/
theorem getAt_setAt_apart (below : ¬ path <+: other) (above : ¬ other <+: path) :
    getAt other (setAt path v r) = getAt other r := by
  induction path generalizing other r with
  | nil => exact absurd List.nil_prefix below
  | cons name rest ih =>
    cases other with
    | nil => exact absurd List.nil_prefix above
    | cons name' rest' =>
      rw [getAt_cons, getAt_cons, find?_setAt]
      by_cases same : name' = name
      · subst same
        rw [List.prefix_cons_inj] at below above
        obtain ⟨next, rest, rfl⟩ : ∃ next later, rest = next :: later :=
          List.exists_cons_of_ne_nil fun empty => below (empty ▸ List.nil_prefix)
        obtain ⟨next', rest', rfl⟩ : ∃ next later, rest' = next :: later :=
          List.exists_cons_of_ne_nil fun empty => above (empty ▸ List.nil_prefix)
        simp only [if_true, Option.bind_some, placed, follow, Datum.record?]
        rw [ih (inner name' r) below above, getAt_inner name' (List.cons_ne_nil _ _), getAt_cons]
      · simp only [if_neg same]

end Laws

/-- Sets values one after the other. -/
def setAll (r : Record) (entries : List (Path × Datum)) : Record :=
  entries.foldl (fun data entry => set data entry.1 entry.2) r

theorem setAll_append (r : Record) (entries later : List (Path × Datum)) :
    setAll r (entries ++ later) = setAll (setAll r entries) later := List.foldl_append

theorem setAll_concat (r : Record) (entries : List (Path × Datum)) (entry : Path × Datum) :
    setAll r (entries ++ [entry]) = set (setAll r entries) entry.1 entry.2 := List.foldl_append

/-- A record has the property exactly if its table is in order and all that stands in it has it. -/
def Entrywise (P : Datum → Prop) : Prop :=
  ∀ entries, P (.record entries) ↔ Table.Ordered entries ∧ ∀ entry ∈ entries, P entry.2

namespace Entrywise

variable {P : Datum → Prop} {r : Record} {v : Datum}

theorem empty (entrywise : Entrywise P) : P (.record []) := by
  refine (entrywise []).mpr ⟨.nil, ?_⟩
  intro entry member
  cases member

theorem inner (entrywise : Entrywise P) (kept : P (.record r)) (name : String) :
    P (.record (inner name r)) := by
  rw [Record.inner]
  cases found : Table.find? name r with
  | none => exact entrywise.empty
  | some v =>
    have old := ((entrywise r).mp kept).2 _ (Table.mem_of_find? found)
    cases v with
    | record entries => exact old
    | _ => exact entrywise.empty

theorem setAt (entrywise : Entrywise P) (path : List String) (kept : P (.record r))
    (value : P v) : P (.record (setAt path v r)) := by
  induction path generalizing r with
  | nil => exact kept
  | cons name rest ih =>
    have placed : P (placed rest v (Record.inner name r)) := by
      cases rest with
      | nil => exact value
      | cons next rest => exact ih (entrywise.inner kept name)
    obtain ⟨ordered, each⟩ := (entrywise r).mp kept
    rw [setAt_cons]
    refine (entrywise _).mpr ⟨ordered.insert name _, ?_⟩
    intro entry member
    rcases Table.mem_insert member with rfl | old
    · exact placed
    · exact each entry old

theorem setAll (entrywise : Entrywise P) {entries : List (Path × Datum)}
    (kept : P (.record r)) (values : ∀ entry ∈ entries, P entry.2) :
    P (.record (setAll r entries)) := by
  induction entries generalizing r with
  | nil => exact kept
  | cons entry rest ih =>
    obtain ⟨here, later⟩ := List.forall_mem_cons.mp values
    exact ih (entrywise.setAt _ kept here) later

end Entrywise

/-- One of the paths leads on from the other, or they are equal. -/
def OneWay (path other : Path) : Prop :=
  path.segments <+: other.segments ∨ other.segments <+: path.segments

instance (path other : Path) : Decidable (OneWay path other) :=
  inferInstanceAs (Decidable (_ ∨ _))

section Rows

variable {entries later : List (Path × Datum)} {path : Path} {r : Record}

theorem get?_set_self (v : Datum) (present : path.segments ≠ []) :
    get? (set r path v) path = some v := by
  have found : getAt (path.segments ++ []) (set r path v) = some v :=
    getAt_setAt_below v r present
  rwa [List.append_nil] at found

/-- Steps on other ways, and steps at the empty path, change nothing at a path. -/
theorem get?_setAll_apart
    (apart : ∀ entry ∈ later, entry.1.segments ≠ [] → ¬ OneWay entry.1 path) :
    get? (setAll r later) path = get? r path := by
  induction later generalizing r with
  | nil => rfl
  | cons entry rest ih =>
    obtain ⟨here, others⟩ := List.forall_mem_cons.mp apart
    refine (ih others).trans ?_
    by_cases empty : entry.1.segments = []
    · change getAt path.segments (setAt entry.1.segments entry.2 r) = get? r path
      rw [empty]
      rfl
    · obtain ⟨below, above⟩ := not_or.mp (here empty)
      exact getAt_setAt_apart entry.2 r below above

/-- Where only leaves are set, what is found was set there or beyond. -/
theorem get?_setAll_isSome (leaves : ∀ entry ∈ entries, entry.2.record? = none)
    (found : (get? (setAll [] entries) path).isSome) :
    ∃ entry ∈ entries, path.segments <+: entry.1.segments := by
  induction entries using List.reverseRecOn with
  | nil =>
    rw [setAll, List.foldl_nil, get?, getAt_empty] at found
    cases found
  | append_singleton entries entry ih =>
    obtain ⟨before, last⟩ := List.forall_mem_append.mp leaves
    by_cases above : path.segments <+: entry.1.segments
    · exact ⟨entry, by simp, above⟩
    have earlier : (get? (setAll [] entries) path).isSome := by
      rw [setAll_concat, get?, set] at found
      by_cases below : entry.1.segments <+: path.segments
      · by_cases empty : entry.1.segments = []
        · rwa [empty] at found
        · obtain ⟨rest, beyond⟩ := below
          have further : rest ≠ [] := by
            rintro rfl
            rw [List.append_nil] at beyond
            exact above (beyond ▸ List.prefix_rfl)
          rw [← beyond, getAt_setAt_below _ _ empty,
            follow_of_record? (last entry List.mem_cons_self) further] at found
          cases found
      · rwa [getAt_setAt_apart _ _ below above] at found
    obtain ⟨first, member, leads⟩ := ih before earlier
    exact ⟨first, List.mem_append_left _ member, leads⟩

theorem find?_set_isSome {name : String} (v : Datum) :
    (Table.find? name (set r path v)).isSome ↔
      (Table.find? name r).isSome ∨ path.first? = some name := by
  rw [set, find?_setAt, Path.first?]
  cases path.segments with
  | nil => simp
  | cons first rest =>
    by_cases same : name = first
    · simp [same]
    · simp [same, Ne.symm same]

/-- A name is taken as soon as a path starts with it. -/
theorem get?_setAll_name {name : String} : (get? (setAll [] entries) (.of name)).isSome ↔
    ∃ entry ∈ entries, entry.1.first? = some name := by
  change (Table.find? name (setAll [] entries)).isSome ↔ _
  induction entries using List.reverseRecOn with
  | nil => simp [setAll, Table.find?]
  | append_singleton entries entry ih =>
    rw [setAll_concat, find?_set_isSome, ih]
    constructor
    · rintro (⟨first, member, starts⟩ | starts)
      · exact ⟨first, List.mem_append_left _ member, starts⟩
      · exact ⟨entry, by simp, starts⟩
    · rintro ⟨first, member, starts⟩
      rcases List.mem_append.mp member with earlier | last
      · exact .inl ⟨first, earlier, starts⟩
      · cases List.mem_singleton.mp last
        exact .inr starts

end Rows
end AuditLog.Record
