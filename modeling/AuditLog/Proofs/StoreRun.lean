import AuditLog.Proofs.ArchiveRun
import AuditLog.Proofs.KeyBytes
import AuditLog.Proofs.RowOrder

/-! Runs of a store: batches are inserted and expired records purged, in any order and at any
times. A journal follows the run with every record that was inserted, the key that was returned
for it and the calls made since. What the store holds, finds, scans and purges is read off the
journal. Sequence numbers only rise; other collections may draw some between two records. -/
namespace AuditLog

namespace RecordKey

instance : Std.TransOrd RecordKey :=
  inferInstanceAs (Std.TransCmp (compareLex (compareOn created) (compareOn sequence)))

instance : Std.LawfulEqOrd RecordKey where
  compare_self := Std.ReflCmp.compare_self
  eq_of_compare := eq_of_compare

theorem compare_eq_lt {a b : RecordKey} : compare a b = .lt ↔
    a.created < b.created ∨ a.created = b.created ∧ a.sequence < b.sequence := by
  change (compare a.created b.created).then (compare a.sequence b.sequence) = .lt ↔ _
  rw [Ordering.then_eq_lt, Nat.compare_eq_lt, Nat.compare_eq_eq, Nat.compare_eq_lt]

end RecordKey

/-- A record and how many sequence numbers are drawn elsewhere before its own. -/
structure Spaced where
  skipped : Nat
  record : StoredRecord
deriving DecidableEq

namespace Store

def skip (store : Store) (n : Nat) : Store := { store with next := store.next + n }

/-- Stores all records, each after the numbers drawn elsewhere; the keys come in their order. -/
def insertSpaced (store : Store) : List Spaced → Store × List RecordKey
  | [] => (store, [])
  | s :: rest =>
    let (store, key) := (store.skip s.skipped).insert s.record
    let (store, keys) := store.insertSpaced rest
    (store, key :: keys)

/-- Where nothing is drawn elsewhere, this is the insertion of the records. -/
theorem insertSpaced_tight (store : Store) (records : List StoredRecord) :
    store.insertSpaced (records.map fun r => ⟨0, r⟩) = store.insertAll records := by
  induction records generalizing store with
  | nil => rfl
  | cons r rest ih => simp only [List.map_cons, insertSpaced, insertAll, skip, Nat.add_zero, ih]

inductive Call where
  | insert (batch : List Spaced)
  | purge (now : Int)
deriving DecidableEq

def Call.records : Call → List StoredRecord
  | .insert batch => batch.map Spaced.record
  | .purge _ => []

def call (store : Store) : Call → Store
  | .insert batch => (store.insertSpaced batch).1
  | .purge now => (store.purge now).1

def run (calls : List Call) : Store := calls.foldl call .empty

/-- A record that was inserted, the key returned for it and the calls made since. -/
structure Insertion where
  key : RecordKey
  record : StoredRecord
  later : List Call
deriving DecidableEq

namespace Insertion

def entry (i : Insertion) : RecordKey × StoredRecord := (i.key, i.record)

/-- No purge since is at or after the expiry. -/
def isKept (i : Insertion) : Bool :=
  i.later.all fun
    | .insert _ => true
    | .purge now => !i.record.isExpired now

def time (i : Insertion) : Nat := keyTime i.record.created.toInt

end Insertion

/-- The entries that a batch adds: its keys as they are returned, with its records. -/
def added (store : Store) (batch : List Spaced) : List (RecordKey × StoredRecord) :=
  (store.insertSpaced batch).2.zip (batch.map Spaced.record)

theorem added_cons (store : Store) (s : Spaced) (rest : List Spaced) :
    store.added (s :: rest) = (((store.skip s.skipped).insert s.record).2, s.record) ::
      ((store.skip s.skipped).insert s.record).1.added rest := rfl

def insertions (store : Store) : List Call → List Insertion
  | [] => []
  | .insert batch :: later =>
    (store.added batch).map (fun entry => ⟨entry.1, entry.2, later⟩) ++
      (store.call (.insert batch)).insertions later
  | .purge now :: later => (store.call (.purge now)).insertions later

/-- All that a run inserts, in order. -/
def journal (calls : List Call) : List Insertion := Store.empty.insertions calls

/-- What no purge has removed, by time of creation and then in order of insertion. -/
def oldestFirst (calls : List Call) : List Insertion :=
  ((journal calls).filter Insertion.isKept).mergeSort fun a b => a.time ≤ b.time

/-- The entries of a store are those listed, which were inserted in this order. -/
structure Lists (store : Store) (held : List (RecordKey × StoredRecord)) : Prop where
  same : store.records.Perm held
  ordered : Table.Ordered store.records
  drawn : ∀ entry ∈ held, entry.1.sequence < store.next

namespace Lists

variable {store : Store} {held : List (RecordKey × StoredRecord)}

theorem empty : Store.empty.Lists [] := by
  refine ⟨.refl _, .nil, ?_⟩
  intro entry member
  cases member

theorem skip (lists : store.Lists held) (n : Nat) : (store.skip n).Lists held where
  same := lists.same
  ordered := lists.ordered
  drawn := fun entry member => Nat.lt_add_right n (lists.drawn entry member)

theorem insert (lists : store.Lists held) (r : StoredRecord) :
    (store.insert r).1.Lists (held ++ [((store.insert r).2, r)]) := by
  have older : ∀ entry ∈ store.records, entry.1.sequence < store.next := by
    intro entry member
    exact lists.drawn entry (lists.same.mem_iff.mp member)
  refine ⟨?_, lists.ordered.insert _ _, ?_⟩
  · refine (store.insert_perm older r).trans ?_
    exact (lists.same.cons _).trans (List.perm_append_singleton _ _).symm
  · intro entry member
    rcases List.mem_append.mp member with old | only
    · exact Nat.lt_succ_of_lt (lists.drawn entry old)
    · cases List.mem_singleton.mp only
      exact Nat.lt_succ_self _

theorem insertSpaced (lists : store.Lists held) (batch : List Spaced) :
    (store.insertSpaced batch).1.Lists (held ++ store.added batch) := by
  induction batch generalizing store held with
  | nil =>
    rw [added, List.map_nil, List.zip_nil_right, List.append_nil]
    exact lists
  | cons s rest ih =>
    have later := ih ((lists.skip s.skipped).insert s.record)
    rw [List.append_assoc] at later
    exact later

theorem purge (lists : store.Lists held) (now : Int) :
    (store.purge now).1.Lists (held.filter fun entry => !entry.2.isExpired now) where
  same := lists.same.filter _
  ordered := List.Pairwise.filter _ lists.ordered
  drawn := fun entry member => lists.drawn entry (List.mem_filter.mp member).1

end Lists

/-- No purge among `later` is at or after the expiry of the record. -/
def outlives (later : List Call) (entry : RecordKey × StoredRecord) : Bool :=
  Insertion.isKept ⟨entry.1, entry.2, later⟩

theorem outlives_purge (now : Int) (later : List Call) (entry : RecordKey × StoredRecord) :
    outlives (.purge now :: later) entry = (!entry.2.isExpired now && outlives later entry) := rfl

theorem kept_added (later : List Call) (added : List (RecordKey × StoredRecord)) :
    ((added.map fun entry => (⟨entry.1, entry.2, later⟩ : Insertion)).filter
      Insertion.isKept).map Insertion.entry = added.filter (outlives later) := by
  rw [List.filter_map, List.map_map]
  exact List.map_id _

/-- Through any calls, the store lists what it listed before and what was inserted since, as far
as no later purge removed it. -/
theorem Lists.calls {store : Store} {held : List (RecordKey × StoredRecord)}
    (lists : store.Lists held) (calls : List Call) :
    (calls.foldl call store).Lists (held.filter (outlives calls) ++
      ((store.insertions calls).filter Insertion.isKept).map Insertion.entry) := by
  induction calls generalizing store held with
  | nil =>
    have every : held.filter (outlives []) = held := by
      apply List.filter_eq_self.mpr
      intro entry _
      rfl
    rw [every, insertions, List.filter_nil, List.map_nil, List.append_nil]
    exact lists
  | cons c later ih =>
    rw [List.foldl_cons]
    cases c with
    | insert batch =>
      have after := ih (lists.insertSpaced batch)
      rw [List.filter_append, List.append_assoc] at after
      rw [insertions, List.filter_append, List.map_append, kept_added]
      exact after
    | purge now =>
      have after := ih (lists.purge now)
      rw [List.filter_filter] at after
      have same : held.filter (fun entry => outlives later entry && !entry.2.isExpired now) =
          held.filter (outlives (.purge now :: later)) := by
        apply List.filter_congr
        intro entry _
        rw [outlives_purge]
        exact Bool.and_comm _ _
      rw [same] at after
      exact after

theorem run_lists (calls : List Call) :
    (run calls).Lists (((journal calls).filter Insertion.isKept).map Insertion.entry) :=
  Lists.empty.calls calls

section Journal

theorem next_le_insertSpaced (store : Store) (batch : List Spaced) :
    store.next ≤ (store.insertSpaced batch).1.next := by
  induction batch generalizing store with
  | nil => exact Nat.le_refl _
  | cons s rest ih =>
    have later := ih ((store.skip s.skipped).insert s.record).1
    exact (Nat.le_add_right _ s.skipped).trans ((Nat.le_succ _).trans later)

theorem length_insertSpaced (store : Store) (batch : List Spaced) :
    (store.insertSpaced batch).2.length = batch.length := by
  induction batch generalizing store with
  | nil => rfl
  | cons s rest ih => exact congrArg Nat.succ (ih _)

theorem map_record_added (store : Store) (batch : List Spaced) :
    (store.added batch).map Prod.snd = batch.map Spaced.record := by
  apply List.map_snd_zip
  rw [List.length_map, length_insertSpaced]

/-- The numbers of a batch rise, from the store's next number to below the next one after it. -/
theorem added_spec (store : Store) (batch : List Spaced) :
    (store.added batch).Pairwise (fun a b => a.1.sequence < b.1.sequence) ∧
      ∀ entry ∈ store.added batch, store.next ≤ entry.1.sequence ∧
        entry.1.sequence < (store.insertSpaced batch).1.next ∧
        entry.1.created = keyTime entry.2.created.toInt := by
  induction batch generalizing store with
  | nil => exact ⟨.nil, fun _ member => by cases member⟩
  | cons s rest ih =>
    let after := (store.skip s.skipped).insert s.record
    have first : store.next ≤ after.2.sequence := Nat.le_add_right _ _
    have onward : after.1.next ≤ (store.insertSpaced (s :: rest)).1.next :=
      next_le_insertSpaced after.1 rest
    obtain ⟨rising, later⟩ := ih after.1
    rw [added_cons]
    constructor
    · refine List.pairwise_cons.mpr ⟨?_, rising⟩
      intro entry member
      exact (later entry member).1
    · intro entry member
      rcases List.mem_cons.mp member with rfl | member
      · exact ⟨first, onward, rfl⟩
      · obtain ⟨drawn, below, timed⟩ := later entry member
        exact ⟨first.trans (Nat.le_of_succ_le drawn), below, timed⟩

theorem next_le_foldl (store : Store) (calls : List Call) :
    store.next ≤ (calls.foldl call store).next := by
  induction calls generalizing store with
  | nil => exact Nat.le_refl _
  | cons c later ih =>
    cases c with
    | purge now => exact ih (store.purge now).1
    | insert batch => exact (next_le_insertSpaced store batch).trans (ih _)

/-- In a journal numbers rise, from the store's next number to below the next one at the end. -/
theorem insertions_spec (store : Store) (calls : List Call) :
    (store.insertions calls).Pairwise (fun a b => a.key.sequence < b.key.sequence) ∧
      ∀ i ∈ store.insertions calls, store.next ≤ i.key.sequence ∧
        i.key.sequence < (calls.foldl call store).next ∧ i.key.created = i.time := by
  induction calls generalizing store with
  | nil => exact ⟨.nil, fun _ member => by cases member⟩
  | cons c later ih =>
    cases c with
    | purge now => exact ih (store.purge now).1
    | insert batch =>
      obtain ⟨rising, drawn⟩ := added_spec store batch
      obtain ⟨rising', drawn'⟩ := ih (store.insertSpaced batch).1
      have onward := next_le_insertSpaced store batch
      constructor
      · refine List.pairwise_append.mpr ⟨List.pairwise_map.mpr rising, rising', ?_⟩
        intro i member j member'
        obtain ⟨entry, old, rfl⟩ := List.mem_map.mp member
        exact (drawn entry old).2.1.trans_le (drawn' j member').1
      · intro i member
        rcases List.mem_append.mp member with here | after
        · obtain ⟨entry, old, rfl⟩ := List.mem_map.mp here
          obtain ⟨least, below, timed⟩ := drawn entry old
          exact ⟨least, below.trans_le (next_le_foldl _ later), timed⟩
        · exact ⟨onward.trans (drawn' i after).1, (drawn' i after).2⟩

theorem record_insertions (store : Store) (calls : List Call) :
    (store.insertions calls).map Insertion.record = calls.flatMap Call.records := by
  induction calls generalizing store with
  | nil => rfl
  | cons c later ih =>
    cases c with
    | purge now => exact ih (store.purge now).1
    | insert batch =>
      have here := map_record_added store batch
      rw [insertions, List.map_append, List.map_map, ih, List.flatMap_cons]
      exact congrArg (· ++ later.flatMap Call.records) here

end Journal

end Store
end AuditLog
