import AuditLog.Archive
import AuditLog.Proofs.StoreRun
import Mathlib.Data.List.Forall2

/-! Writing a batch to an archive over any store that calls can reach. A record is written exactly
when it names its event, can be kept as long as it has to be and holds finite doubles only, however
deep they stand. The others are counted; they neither keep a record out nor move it. -/
namespace AuditLog

/-- The double stands somewhere in the value: itself, in a nested record or in a list. -/
inductive Datum.Holds (x : Double) : Datum → Prop
  | here : Holds x (.double x)
  | record {entries name v} (member : (name, v) ∈ entries) (inside : Holds x v) :
      Holds x (.record entries)
  | list {items v} (member : v ∈ items) (inside : Holds x v) : Holds x (.list items)

/-- What a record must bring to be written at the clock value `now`. -/
structure Record.Writable (retention : Nat) (now : Instant) (r : Record) : Prop where
  event : ∃ name, r.text? Field.event = some name ∧ name ≠ ""
  expires : (Archive.createdAt now r).seconds + retention ≤ 8210266876799
  finite : ∀ x, Datum.Holds x (.record r) → x.isFinite = true

/-- Nanoseconds since the epoch. -/
def Instant.sinceEpoch (t : Instant) : Int := t.seconds * 1000000000 + t.nanos

/-- What is stored of a record: the record as a document with its times of creation and expiry. -/
structure StoredRecord.StandsFor (stored : StoredRecord) (retention : Nat) (now : Instant)
    (r : Record) : Prop where
  created : stored.created.toInt = (Archive.createdAt now r).sinceEpoch / 1000
  expires : ∃ expires, (Archive.createdAt now r).shift? retention = some expires ∧
    stored.expires.map Int64.toInt = some (expires.sinceEpoch / 1000) ∧
    stored.text = Document.stored
      (Table.insert "expires" (.instant expires)
        (Table.insert "created" (.instant (Archive.createdAt now r)) (Document.ofRecord r)))

namespace Datum

mutual
theorem hasNonFinite_iff : ∀ v : Datum,
    v.hasNonFinite = true ↔ ∃ x, Holds x v ∧ x.isFinite = false
  | .double x => by
    constructor
    · intro found
      exact ⟨x, .here, by simpa [hasNonFinite] using found⟩
    · rintro ⟨_, ⟨⟩, infinite⟩
      simpa [hasNonFinite] using infinite
  | .record entries => by
    rw [hasNonFinite, hasNonFiniteEntry_iff entries]
    constructor
    · rintro ⟨name, v, member, x, inside, infinite⟩
      exact ⟨x, .record member inside, infinite⟩
    · rintro ⟨x, holds, infinite⟩
      cases holds with
      | record member inside => exact ⟨_, _, member, x, inside, infinite⟩
  | .list items => by
    rw [hasNonFinite, hasNonFiniteItem_iff items]
    constructor
    · rintro ⟨v, member, x, inside, infinite⟩
      exact ⟨x, .list member inside, infinite⟩
    · rintro ⟨x, holds, infinite⟩
      cases holds with
      | list member inside => exact ⟨_, member, x, inside, infinite⟩
  | .bool _ | .int _ | .text _ | .instant _ => by
    constructor
    · intro found
      simp [hasNonFinite] at found
    · rintro ⟨_, ⟨⟩, _⟩

theorem hasNonFiniteEntry_iff : ∀ entries : List (String × Datum),
    hasNonFiniteEntry entries = true ↔
      ∃ name v, (name, v) ∈ entries ∧ ∃ x, Holds x v ∧ x.isFinite = false
  | [] => by simp [hasNonFiniteEntry]
  | (name, v) :: rest => by
    rw [hasNonFiniteEntry, Bool.or_eq_true, hasNonFinite_iff v, hasNonFiniteEntry_iff rest]
    constructor
    · rintro (here | ⟨other, w, member, inside⟩)
      · exact ⟨name, v, List.mem_cons_self, here⟩
      · exact ⟨other, w, List.mem_cons_of_mem _ member, inside⟩
    · rintro ⟨other, w, member, inside⟩
      rcases List.mem_cons.mp member with same | later
      · cases same
        exact .inl inside
      · exact .inr ⟨other, w, later, inside⟩

theorem hasNonFiniteItem_iff : ∀ items : List Datum,
    hasNonFiniteItem items = true ↔ ∃ v ∈ items, ∃ x, Holds x v ∧ x.isFinite = false
  | [] => by simp [hasNonFiniteItem]
  | v :: rest => by
    rw [hasNonFiniteItem, Bool.or_eq_true, hasNonFinite_iff v, hasNonFiniteItem_iff rest]
    simp only [List.mem_cons, exists_eq_or_imp]
end

end Datum

theorem Record.hasNonFinite_eq_false (r : Record) :
    r.hasNonFinite = false ↔ ∀ x, Datum.Holds x (.record r) → x.isFinite = true := by
  have scan := Datum.hasNonFinite_iff (.record r)
  rw [Datum.hasNonFinite] at scan
  rw [Record.hasNonFinite, ← Bool.not_eq_true, scan]
  simp only [not_exists, not_and, Bool.not_eq_false]

namespace Instant

theorem of?_isSome (seconds : Int) (nanos : Nat)
    (fits : nanos < 1000000000 ∨ (nanos < 2000000000 ∧ seconds % 60 = 59)) :
    (of? seconds nanos).isSome ↔ -8334601228800 ≤ seconds ∧ seconds ≤ 8210266876799 := by
  unfold of?
  split
  next first =>
    split
    next last => simp [first, last]
    next late => simp [first, late]
  next early => simp [early]

/-- Only the end of the representable years limits how long a record can be kept. -/
theorem shift?_isSome (t : Instant) (span : Nat) :
    (t.shift? span).isSome ↔ t.seconds + span ≤ 8210266876799 := by
  have first := t.first
  have last := t.last
  have nanos := t.nanos_lt
  unfold shift?
  split
  next zero =>
    rw [zero]
    simpa using last
  next =>
    split
    next plain =>
      rw [of?_isSome _ _ (.inl plain)]
      omega
    next leap =>
      rw [of?_isSome _ _ (.inl (by omega))]
      omega

theorem toInt_micros_eq (t : Instant) : (Int64.ofInt t.micros).toInt = t.sinceEpoch / 1000 := by
  rw [t.toInt_micros, micros, sinceEpoch]
  omega

end Instant

namespace Record

variable {retention : Nat} {now : Instant} {r : Record}

theorem writable_iff : Writable retention now r ↔
    ((r.text? Field.event).filter (!·.isEmpty)).isNone = false ∧
      ((Archive.createdAt now r).shift? retention).isSome ∧ r.hasNonFinite = false := by
  have named : ((r.text? Field.event).filter (!·.isEmpty)).isNone = false ↔
      ∃ name, r.text? Field.event = some name ∧ name ≠ "" := by
    cases r.text? Field.event with
    | none => simp
    | some name => by_cases empty : name = "" <;> simp [Option.filter, empty]
  rw [named, Instant.shift?_isSome, hasNonFinite_eq_false]
  constructor
  · rintro ⟨event, expires, finite⟩
    exact ⟨event, expires, finite⟩
  · rintro ⟨event, expires, finite⟩
    exact ⟨event, expires, finite⟩

instance : DecidablePred (Writable retention now) := fun _ => decidable_of_iff _ writable_iff.symm

end Record

namespace Archive

variable (archive : Archive) (now : Instant)

/-- What is prepared of a record, unless it is turned away. -/
theorem prepare_spec (r : Record) :
    (r.Writable archive.retention now ∧
      ∃ stored, (archive.prepare now r).toOption = some stored ∧
        stored.StandsFor archive.retention now r) ∨
    (¬ r.Writable archive.retention now ∧ (archive.prepare now r).toOption = none) := by
  rw [Record.writable_iff, prepare]
  cases named : ((r.text? Field.event).filter (!·.isEmpty)).isNone with
  | true => exact .inr ⟨by simp, rfl⟩
  | false =>
    simp only [Bool.false_eq_true, if_false]
    cases shifted : (createdAt now r).shift? archive.retention with
    | none => exact .inr ⟨by simp, rfl⟩
    | some expires =>
      cases infinite : r.hasNonFinite with
      | true => exact .inr ⟨by simp, rfl⟩
      | false =>
        refine .inl ⟨by simp, _, rfl, (createdAt now r).toInt_micros_eq, expires, shifted, ?_, rfl⟩
        exact congrArg some expires.toInt_micros_eq

theorem accepted_spec (batch : List Record) :
    List.Forall₂ (fun r stored => StoredRecord.StandsFor stored archive.retention now r)
      (batch.filter fun r => r.Writable archive.retention now) (archive.accepted now batch) := by
  induction batch with
  | nil => exact .nil
  | cons r rest ih =>
    rcases archive.prepare_spec now r with ⟨good, stored, made, stands⟩ | ⟨bad, none⟩
    · rw [List.filter_cons_of_pos (by simpa using good), accepted, List.filterMap_cons, made]
      exact .cons stands ih
    · rw [List.filter_cons_of_neg (by simpa using bad), accepted, List.filterMap_cons, none]
      exact ih

/-- Writing is one insertion into the store. -/
theorem write_store (batch : List Record) : (archive.write now batch).1.store =
    archive.store.call (.insert ((archive.accepted now batch).map fun s => ⟨0, s⟩)) := by
  rw [Store.call, Store.insertSpaced_tight]
  rfl

end Archive

namespace Store

variable {store : Store}

theorem Lists.self {held : List (RecordKey × StoredRecord)} (lists : store.Lists held) :
    store.Lists store.records where
  same := .refl _
  ordered := lists.ordered
  drawn := fun entry member => lists.drawn entry (lists.same.mem_iff.mp member)

theorem Lists.get?_iff {held : List (RecordKey × StoredRecord)} (lists : store.Lists held)
    (key : RecordKey) (stored : StoredRecord) :
    store.get? key = some stored ↔ (key, stored) ∈ held := by
  rw [← lists.same.mem_iff]
  exact ⟨Table.mem_of_find?, Table.find?_of_mem lists.ordered⟩

end Store

namespace Archive

theorem length_accepted (archive : Archive) (now : Instant) (batch : List Record) :
    (archive.accepted now batch).length =
      (batch.filter fun r => r.Writable archive.retention now).length :=
  (archive.accepted_spec now batch).length_eq.symm

/-- Those that are not written are counted, and nothing else is reported. -/
theorem write_failure (archive : Archive) (now : Instant) (batch : List Record) :
    (archive.write now batch).2 =
      if ∀ r ∈ batch, r.Writable archive.retention now then none
      else some ⟨(batch.filter fun r => ¬ r.Writable archive.retention now).length,
        batch.length⟩ := by
  have apart := batch.length_eq_length_filter_add fun r => r.Writable archive.retention now
  have count : batch.length - (archive.accepted now batch).length =
      (batch.filter fun r => ¬ r.Writable archive.retention now).length := by
    rw [length_accepted]
    simp only [decide_not]
    omega
  have none : (batch.filter fun r => ¬ r.Writable archive.retention now).length = 0 ↔
      ∀ r ∈ batch, r.Writable archive.retention now := by
    rw [List.length_eq_zero_iff, List.filter_eq_nil_iff]
    simp
  simp only [write, count, none]

/-- An archive over a store as any calls leave it. -/
def ofCalls (calls : List Store.Call) (retention : Nat) (players : Option Players) : Archive :=
  ⟨Store.run calls, retention, players⟩

theorem ofCalls_concat (calls : List Store.Call) (retention : Nat) (players : Option Players)
    (c : Store.Call) :
    ofCalls (calls ++ [c]) retention players = ⟨(Store.run calls).call c, retention, players⟩ := by
  rw [ofCalls, Store.run, List.foldl_append]
  rfl

theorem write_ofCalls (calls : List Store.Call) (retention : Nat) (players : Option Players)
    (now : Instant) (batch : List Record) :
    ∃ insertion, ((ofCalls calls retention players).write now batch).1 =
      ofCalls (calls ++ [insertion]) retention players := by
  refine ⟨.insert (((ofCalls calls retention players).accepted now batch).map fun s => ⟨0, s⟩), ?_⟩
  have store := (ofCalls calls retention players).write_store now batch
  rw [ofCalls_concat]
  exact congrArg (fun store => (⟨store, retention, players⟩ : Archive)) store

/-- Whatever batches an archive is given and whenever it is purged, calls leave its store. -/
theorem run_ofCalls (retention : Nat) (players : Option Players) (steps : List Step) :
    ∃ calls, run retention players steps = ofCalls calls retention players := by
  induction steps using List.reverseRecOn with
  | nil => exact ⟨[], rfl⟩
  | append_singleton steps s ih =>
    obtain ⟨calls, before⟩ := ih
    have after : run retention players (steps ++ [s]) = (ofCalls calls retention players).step s := by
      rw [← before]
      exact List.foldl_append
    rw [after]
    cases s with
    | write now batch =>
      obtain ⟨insertion, written⟩ :=
        write_ofCalls calls retention players now (batch.map OrderedRecord.record)
      exact ⟨calls ++ [insertion], written⟩
    | purge now =>
      refine ⟨calls ++ [.purge now.micros], ?_⟩
      rw [ofCalls_concat]
      rfl

/-- A batch written over any store that calls can reach adds one entry for each writable record,
in the order of the batch: its stored form under a key of its time of creation. Earlier entries stay
as they are, and the records that are not written are counted. -/
theorem write_exact (calls : List Store.Call) (retention : Nat) (players : Option Players)
    (now : Instant) (batch : List Record) :
    ∃ entries : List (RecordKey × StoredRecord),
      List.Forall₂ (fun r entry => entry.2.StandsFor retention now r)
        (batch.filter fun r => r.Writable retention now) entries ∧
      (∀ entry ∈ entries, entry.1.created = entry.2.created.toInt.toNat) ∧
      -- the order of the batch is that of the numbers drawn
      entries.Pairwise (fun a b => a.1.sequence < b.1.sequence) ∧
      (∀ old ∈ (Store.run calls).records, ∀ entry ∈ entries,
        old.1.sequence < entry.1.sequence) ∧
      ((ofCalls calls retention players).write now batch).1.store.records.Perm
        ((Store.run calls).records ++ entries) ∧
      (∀ key stored,
        ((ofCalls calls retention players).write now batch).1.store.get? key = some stored ↔
          (Store.run calls).get? key = some stored ∨ (key, stored) ∈ entries) ∧
      ((ofCalls calls retention players).write now batch).2 =
        (if ∀ r ∈ batch, r.Writable retention now then none
        else some ⟨(batch.filter fun r => ¬ r.Writable retention now).length, batch.length⟩) ∧
      ∃ insertion, ((ofCalls calls retention players).write now batch).1 =
        ofCalls (calls ++ [insertion]) retention players := by
  let archive := ofCalls calls retention players
  let spaced := (archive.accepted now batch).map fun s => (⟨0, s⟩ : Spaced)
  have before := (Store.run_lists calls).self
  have after := before.insertSpaced spaced
  have store := archive.write_store now batch
  have stored : (archive.store.added spaced).map Prod.snd = archive.accepted now batch := by
    rw [Store.map_record_added, List.map_map]
    exact List.map_id _
  obtain ⟨rising, spec⟩ := archive.store.added_spec spaced
  refine ⟨archive.store.added spaced, ?_, ?_, rising, ?_, ?_, ?_, ?_, ?_⟩
  · have prepared := archive.accepted_spec now batch
    rw [← stored] at prepared
    exact List.forall₂_map_right_iff.mp prepared
  · intro entry member
    exact (spec entry member).2.2
  · intro old held entry member
    exact (before.drawn old held).trans_le (spec entry member).1
  · rw [store]
    exact after.same
  · intro key stored
    rw [store, before.get?_iff, ← List.mem_append]
    exact after.get?_iff key stored
  · exact archive.write_failure now batch
  · exact write_ofCalls calls retention players now batch

example : ((ofCalls [] 3600 none).write noon [[("event", .text "break")],
    [("event", .text "break"), ("x", .list [.record [("y", .double ⟨0x7FF8000000000000⟩)]])],
    [("event", .text "")], [("event", .text "place")]]).2 = some ⟨2, 4⟩ := by
  decide +kernel

end Archive
end AuditLog
