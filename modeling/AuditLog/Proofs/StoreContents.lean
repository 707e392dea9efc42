import AuditLog.Proofs.StoreRun

/-! The contents of a store after any run: the records lie by time of creation and then in order
of insertion, each is found under the key that was returned for it until a purge removes it, and
a purge removes nothing that a later scan would have shown. A tree whose keys are the bytes of
the record keys does the same, as long as the numbers fit their bytes. -/
namespace AuditLog.Store

section Contents

variable (calls : List Call)

theorem rising_journal :
    (journal calls).Pairwise fun a b => a.key.sequence < b.key.sequence :=
  (insertions_spec _ calls).1

theorem journal_key {i : Insertion} (member : i ∈ journal calls) :
    i.key.created = i.time ∧ i.key.sequence < (run calls).next :=
  have spec := (insertions_spec _ calls).2 i member
  ⟨spec.2.2, spec.2.1⟩

theorem keys_nodup : ((journal calls).map Insertion.key).Nodup := by
  refine List.pairwise_map.mpr ((rising_journal calls).imp ?_)
  intro i j less same
  rw [same] at less
  exact Nat.lt_irrefl _ less

theorem mem_oldestFirst {i : Insertion} :
    i ∈ oldestFirst calls ↔ i ∈ journal calls ∧ i.isKept = true := by
  rw [oldestFirst, List.mem_mergeSort, List.mem_filter]

/-- The records of a run lie in the store by time of creation and then in order of insertion. -/
theorem records_run : (run calls).records = (oldestFirst calls).map Insertion.entry := by
  have ordered : Table.Ordered ((oldestFirst calls).map Insertion.entry) := by
    have sorted := pairwise_mergeSort Insertion.time ((rising_journal calls).filter Insertion.isKept)
    refine List.pairwise_map.mpr (sorted.imp_of_mem ?_)
    intro i j memberI memberJ before
    have timeI := (journal_key calls ((mem_oldestFirst calls).mp memberI).1).1
    have timeJ := (journal_key calls ((mem_oldestFirst calls).mp memberJ).1).1
    rw [← timeI, ← timeJ] at before
    exact RecordKey.compare_eq_lt.mpr before
  have same : (run calls).records.Perm ((oldestFirst calls).map Insertion.entry) :=
    (run_lists calls).same.trans ((List.mergeSort_perm _ _).symm.map _)
  refine same.eq_of_pairwise ?_ (run_lists calls).ordered ordered
  intro a b _ _ less more
  have loop := Std.TransCmp.lt_trans less more
  rw [Std.ReflOrd.compare_self] at loop
  cases loop

theorem get?_run {i : Insertion} (member : i ∈ journal calls) :
    (run calls).get? i.key = if i.isKept then some i.record else none := by
  split
  case isTrue kept =>
    apply Table.find?_of_mem (run_lists calls).ordered
    rw [records_run]
    exact List.mem_map_of_mem ((mem_oldestFirst calls).mpr ⟨member, kept⟩)
  case isFalse lost =>
    apply Table.find?_none
    intro entry held same
    rw [records_run] at held
    obtain ⟨j, listed, rfl⟩ := List.mem_map.mp held
    obtain ⟨member', kept⟩ := (mem_oldestFirst calls).mp listed
    obtain rfl := List.inj_on_of_nodup_map (keys_nodup calls) member' member same
    exact lost kept

theorem scanSince_run (since now : Int) : (run calls).scanSince since now =
    ((oldestFirst calls).filter fun i => keyTime since ≤ i.time).filterMap fun i =>
      live? now i.record := by
  have times : (oldestFirst calls).filter (fun i => keyTime since ≤ i.key.created) =
      (oldestFirst calls).filter fun i => keyTime since ≤ i.time := by
    apply List.filter_congr
    intro i member
    rw [(journal_key calls ((mem_oldestFirst calls).mp member).1).1]
  rw [scanSince, records_run, List.filter_map, List.filterMap_map, ← times]
  rfl

end Contents

section Purge

variable (store : Store)

theorem size_purge (now : Int) : store.size = (store.purge now).1.size + (store.purge now).2 := by
  have fewer := List.length_filter_le (fun entry => !entry.2.isExpired now) store.records
  exact (Nat.add_sub_of_le fewer).symm

theorem purge_count (now : Int) :
    (store.purge now).2 = store.records.countP fun entry => entry.2.isExpired now := by
  have whole := List.length_eq_countP_add_countP (fun entry => entry.2.isExpired now)
    (l := store.records)
  have split := store.size_purge now
  simp only [size, purge, ← List.countP_eq_length_filter, Bool.not_eq_true,
    Bool.decide_eq_false] at whole split ⊢
  omega

theorem purge_again (now : Int) : ((store.purge now).1.purge now).2 = 0 := by
  rw [purge_count, List.countP_eq_zero]
  intro entry kept
  have unexpired := (List.mem_filter.mp kept).2
  rwa [Bool.not_eq_true', ← Bool.not_eq_true] at unexpired

theorem isExpired_mono {r : StoredRecord} {now later : Int} (after : now ≤ later)
    (expired : r.isExpired now = true) : r.isExpired later = true := by
  rw [StoredRecord.isExpired, Option.any_eq_true] at *
  obtain ⟨t, known, past⟩ := expired
  exact ⟨t, known, decide_eq_true ((of_decide_eq_true past).trans after)⟩

/-- What a purge removes was no longer scanned. -/
theorem scan_purge {now later : Int} (after : now ≤ later) :
    (store.purge now).1.scan later = store.scan later := by
  rw [scan_eq, scan_eq, purge, List.filterMap_filter]
  apply List.filterMap_congr
  intro entry _
  cases expired : entry.2.isExpired now with
  | false => rfl
  | true =>
    have gone : live? later entry.2 = none := if_pos (isExpired_mono after expired)
    rw [gone]
    rfl

end Purge

section Tree

/-- The tree under a store: its records under the bytes of their keys. -/
def tree (store : Store) : Table (List UInt8) StoredRecord :=
  store.records.map fun entry => (entry.1.encode, entry.2)

variable {store : Store} (fits : ∀ entry ∈ store.records, entry.1.Fits)
include fits

theorem tree_ordered (ordered : Table.Ordered store.records) : Table.Ordered store.tree := by
  refine List.pairwise_map.mpr (ordered.imp_of_mem ?_)
  intro a b memberA memberB less
  rw [RecordKey.compare_encode (fits a memberA) (fits b memberB)]
  exact less

theorem find?_tree {key : RecordKey} (fitsKey : key.Fits) :
    Table.find? key.encode store.tree = store.get? key := by
  obtain ⟨records, next⟩ := store
  simp only [tree, get?] at fits ⊢
  induction records with
  | nil => rfl
  | cons entry rest ih =>
    have fitsEntry := fits entry List.mem_cons_self
    have same : key.encode = entry.1.encode ↔ key = entry.1 := by
      rw [← Std.LawfulEqOrd.compare_eq_iff_eq, RecordKey.compare_encode fitsKey fitsEntry,
        Std.LawfulEqOrd.compare_eq_iff_eq]
    have later := ih fun e member => fits e (List.mem_cons_of_mem _ member)
    simp only [List.map_cons, Table.find?, same, later]

theorem tree_insert {key : RecordKey} (fitsKey : key.Fits) (r : StoredRecord) (n : Nat) :
    tree ⟨Table.insert key r store.records, n⟩ = Table.insert key.encode r store.tree := by
  obtain ⟨records, next⟩ := store
  simp only [tree] at fits ⊢
  induction records with
  | nil => rfl
  | cons entry rest ih =>
    have later := ih fun e member => fits e (List.mem_cons_of_mem _ member)
    simp only [Table.insert, List.map_cons,
      RecordKey.compare_encode fitsKey (fits entry List.mem_cons_self)]
    split
    next => rfl
    next => rfl
    next => rw [List.map_cons, later]

/-- The part of the tree from the first key of a time on. -/
theorem range_tree {created : Nat} (fitsTime : created < 2 ^ 64) :
    (store.tree.filter fun node => (compare (RecordKey.encode ⟨created, 0⟩) node.1).isLE) =
      tree ⟨store.records.filter fun entry => created ≤ entry.1.created, store.next⟩ := by
  rw [tree, tree, List.filter_map]
  congr 1
  apply List.filter_congr
  intro entry member
  have start : RecordKey.Fits ⟨created, 0⟩ := ⟨fitsTime, Nat.two_pow_pos 64⟩
  have after : compare ⟨created, 0⟩ entry.1 = .gt ↔ entry.1.created < created := by
    rw [Std.OrientedCmp.gt_iff_lt, RecordKey.compare_eq_lt]
    simp
  rw [Function.comp_apply, RecordKey.compare_encode start (fits entry member), Bool.eq_iff_iff,
    Ordering.isLE_iff_ne_gt, after, Nat.not_lt, decide_eq_true_eq]

omit fits in
theorem tree_purge (store : Store) (now : Int) :
    (store.purge now).1.tree = store.tree.filter fun node => !node.2.isExpired now := by
  rw [tree, tree, purge, List.filter_map]
  rfl

end Tree

/-- A tree in the order of its keys' bytes, worked on by those bytes, does for the store. -/
structure OnBytes (store : Store) : Prop where
  ordered : Table.Ordered store.tree
  keys : ∀ entry ∈ store.records, RecordKey.decode? entry.1.encode = some entry.1
  found : ∀ key : RecordKey, key.Fits → Table.find? key.encode store.tree = store.get? key
  scanned : ∀ (since : Int64) (now : Int), store.scanSince since.toInt now =
    (store.tree.filter fun node =>
      (compare (RecordKey.encode ⟨keyTime since.toInt, 0⟩) node.1).isLE).filterMap fun node =>
        live? now node.2
  inserted : ∀ r, store.next < 2 ^ 64 →
    (store.insert r).1.tree = Table.insert (store.insert r).2.encode r store.tree
  purged : ∀ now, (store.purge now).1.tree = store.tree.filter fun node => !node.2.isExpired now

theorem keyTime_lt (t : Int64) : keyTime t.toInt < 2 ^ 64 := by
  have bound := t.toInt_lt
  rw [keyTime]
  omega

theorem onBytes (store : Store) (ordered : Table.Ordered store.records)
    (fits : ∀ entry ∈ store.records, entry.1.Fits) : store.OnBytes where
  ordered := tree_ordered fits ordered
  keys := fun entry member => RecordKey.decode?_encode (fits entry member)
  found := fun _ fitsKey => find?_tree fits fitsKey
  scanned := by
    intro since now
    rw [range_tree fits (keyTime_lt since), tree, List.filterMap_map]
    rfl
  inserted := fun r room => tree_insert fits ⟨keyTime_lt r.created, room⟩ r _
  purged := tree_purge store

/-- As long as no number is used up, all keys of a run fit their bytes. -/
theorem fits_run (calls : List Call) (room : (run calls).next ≤ 2 ^ 64) :
    ∀ entry ∈ (run calls).records, entry.1.Fits := by
  intro entry member
  rw [records_run] at member
  obtain ⟨i, listed, rfl⟩ := List.mem_map.mp member
  obtain ⟨time, below⟩ := journal_key calls ((mem_oldestFirst calls).mp listed).1
  exact ⟨time ▸ keyTime_lt i.record.created, below.trans_le room⟩

/-- What a store holds after any run, and what it answers then, read off the journal. -/
theorem run_contents (calls : List Call) :
    -- every record is entered once, in order of insertion, under a key of its own
    (journal calls).map Insertion.record = calls.flatMap Call.records ∧
    ((journal calls).map Insertion.key).Nodup ∧
    -- the store holds those that no purge since removed, and finds each by its key
    (run calls).records.Perm (((journal calls).filter Insertion.isKept).map Insertion.entry) ∧
    (∀ i ∈ journal calls, i.key.created = i.time ∧
      (run calls).get? i.key = if i.isKept then some i.record else none) ∧
    -- scans go by time of creation and then by insertion, from any time on
    (∀ now, (run calls).scan now =
      (oldestFirst calls).filterMap fun i => live? now i.record) ∧
    (∀ since now, (run calls).scanSince since now =
      ((oldestFirst calls).filter fun i => keyTime since ≤ i.time).filterMap fun i =>
        live? now i.record) ∧
    -- a purge removes what is expired, which no later scan would have shown
    (∀ now, ((run calls).purge now).2 =
        (oldestFirst calls).countP (fun i => i.record.isExpired now) ∧
      (run calls).size = ((run calls).purge now).1.size + ((run calls).purge now).2 ∧
      (((run calls).purge now).1.purge now).2 = 0 ∧
      ∀ later, now ≤ later → ((run calls).purge now).1.scan later = (run calls).scan later) ∧
    -- all of this can be done by the bytes of the keys
    ((run calls).next ≤ 2 ^ 64 → (run calls).OnBytes) := by
  refine ⟨record_insertions _ calls, keys_nodup calls, (run_lists calls).same, ?_, ?_,
    scanSince_run calls, ?_, ?_⟩
  · intro i member
    exact ⟨(journal_key calls member).1, get?_run calls member⟩
  · intro now
    rw [scan_eq, records_run, List.filterMap_map]
    rfl
  · intro now
    refine ⟨?_, size_purge _ now, purge_again _ now, fun _ after => scan_purge _ after⟩
    rw [purge_count, records_run, List.countP_map]
    rfl
  · intro room
    exact onBytes _ (run_lists calls).ordered (fits_run calls room)

section Sample

/-- Two batches with a purge between them: the second record has expired by then, the third was
created before the epoch and the last at the time of the first. -/
def sample : List Call :=
  [.insert [⟨0, ⟨"first", 5, none⟩⟩, ⟨2, ⟨"second", 7, some 10⟩⟩], .purge 10,
    .insert [⟨1, ⟨"third", -3, some 20⟩⟩, ⟨0, ⟨"{}", 5, some 20⟩⟩]]

theorem sample_contents :
    (run sample).records = [(⟨0, 5⟩, ⟨"third", -3, some 20⟩), (⟨5, 0⟩, ⟨"first", 5, none⟩),
      (⟨5, 6⟩, ⟨"{}", 5, some 20⟩)] ∧
    ((run sample).scan 15).length = 1 ∧ (run sample).get? ⟨7, 3⟩ = none ∧
    ((run sample).purge 20).2 = 2 ∧
    ((run sample).purge 20).1.scan 25 = (run sample).scan 25 ∧ (run sample).OnBytes := by
  obtain ⟨-, -, -, found, -, -, purged, bytes⟩ := run_contents sample
  have second : (run sample).get? ⟨7, 3⟩ = none :=
    (found ⟨⟨7, 3⟩, ⟨"second", 7, some 10⟩, sample.drop 1⟩ (by decide)).2
  exact ⟨by decide, by decide +kernel, second, by decide,
    (purged 20).2.2.2 25 (by decide), bytes (by decide)⟩

end Sample

end AuditLog.Store
