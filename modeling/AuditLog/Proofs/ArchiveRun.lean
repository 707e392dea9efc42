import AuditLog.Archive
import AuditLog.Proofs.RecordCodec

/-! Runs of an archive: batches are written and expired records purged, at any clock values. A
ledger follows the run with what was accepted and not yet purged; the store holds exactly the
stored forms of the ledger, each under a key with its own time of creation. -/
namespace AuditLog

/-- A record whose tables are in order at every depth, as insertion leaves them. -/
structure OrderedRecord where
  record : Record
  ordered : Table.Ordered record
  inner : Datum.EntriesInOrder record

/-- A record that was accepted, with the times that it was given. -/
structure Acceptance where
  source : OrderedRecord
  created : Instant
  expires : Instant
  named : ((source.record.text? Field.event).filter (!·.isEmpty)).isNone = false
  finite : source.record.hasNonFinite = false

namespace Acceptance

/-- The record with the times that were given, as they are read. -/
def dated (a : Acceptance) (r : Record) : Record :=
  Table.insert "expires" (.instant a.expires.reread)
    (Table.insert "created" (.instant a.created.reread) r)

def document (a : Acceptance) : Document :=
  Table.insert "expires" (.instant a.expires) <|
    Table.insert "created" (.instant a.created) (Document.ofRecord a.source.record)

def stored (a : Acceptance) : StoredRecord :=
  .ofDocument a.document (Int64.ofInt a.created.micros) (some (Int64.ofInt a.expires.micros))

end Acceptance

/-- What happens to an archive between queries. -/
inductive Step where
  | write (now : Instant) (batch : List OrderedRecord)
  | purge (now : Instant)

namespace Archive

def step (archive : Archive) : Step → Archive
  | .write now batch => (archive.write now (batch.map OrderedRecord.record)).1
  | .purge now => (archive.purge now).1

def run (retention : Nat) (players : Option Players) (steps : List Step) : Archive :=
  steps.foldl step (.empty retention players)

end Archive

namespace Ledger

/-- The acceptance of a record at the clock value `now`, unless it is rejected. -/
def accept? (retention : Nat) (now : Instant) (r : OrderedRecord) : Option Acceptance :=
  match (Archive.createdAt now r.record).shift? retention with
  | none => none
  | some expires =>
    if named : ((r.record.text? Field.event).filter (!·.isEmpty)).isNone = false then
      if finite : r.record.hasNonFinite = false then
        some ⟨r, Archive.createdAt now r.record, expires, named, finite⟩
      else none
    else none

def step (retention : Nat) (ledger : List Acceptance) : Step → List Acceptance
  | .write now batch => ledger ++ batch.filterMap (accept? retention now)
  | .purge now => ledger.filter fun a => now.micros < a.expires.micros

def run (retention : Nat) (steps : List Step) : List Acceptance :=
  steps.foldl (step retention) []

/-- No purge among `later` is at or after the expiry. -/
def outlives (later : List Step) (a : Acceptance) : Bool :=
  later.all fun
    | .write _ _ => true
    | .purge clock => clock.micros < a.expires.micros

/-- What was accepted and not purged later, read off the steps. -/
def survivors (retention : Nat) : List Step → List Acceptance
  | [] => []
  | .write now batch :: later =>
    (batch.filterMap (accept? retention now)).filter (outlives later) ++ survivors retention later
  | .purge _ :: later => survivors retention later

theorem foldl_step (retention : Nat) (steps : List Step) (ledger : List Acceptance) :
    steps.foldl (step retention) ledger =
      ledger.filter (outlives steps) ++ survivors retention steps := by
  induction steps generalizing ledger with
  | nil =>
    have every : ledger.filter (outlives []) = ledger := by
      apply List.filter_eq_self.mpr
      intro a _
      rfl
    simp [survivors, every]
  | cons s later ih =>
    rw [List.foldl_cons, ih]
    cases s with
    | write now batch =>
      rw [step, List.filter_append, List.append_assoc]
      rfl
    | purge now =>
      rw [step, List.filter_filter]
      congr 1
      apply List.filter_congr
      intro a _
      simp only [outlives, List.all_cons]
      exact Bool.and_comm _ _

theorem run_eq_survivors (retention : Nat) (steps : List Step) :
    run retention steps = survivors retention steps := by
  rw [run, foldl_step]
  rfl

end Ledger

/-- The store holds the stored forms of the ledger, under keys of their times of creation that
were given out before. -/
structure Store.Follows (store : Store) (ledger : List Acceptance) : Prop where
  same : (store.records.map Prod.snd).Perm (ledger.map Acceptance.stored)
  keyed : ∀ entry ∈ store.records, entry.1.created = keyTime entry.2.created.toInt
  fresh : ∀ entry ∈ store.records, entry.1.sequence < store.next

theorem Instant.micros_range (t : Instant) : -2 ^ 63 ≤ t.micros ∧ t.micros < 2 ^ 63 := by
  have first := t.first
  have last := t.last
  have nanos := t.nanos_lt
  unfold micros
  omega

theorem Instant.toInt_micros (t : Instant) : (Int64.ofInt t.micros).toInt = t.micros :=
  Int64.toInt_ofInt_of_le t.micros_range.1 t.micros_range.2

theorem Acceptance.isExpired_stored (a : Acceptance) (now : Int) :
    a.stored.isExpired now = decide (a.expires.micros ≤ now) := by
  simp only [StoredRecord.isExpired, stored, StoredRecord.ofDocument, Option.any_some,
    Instant.toInt_micros]

namespace Archive

theorem prepare_eq (archive : Archive) (now : Instant) (r : OrderedRecord) :
    (archive.prepare now r.record).toOption =
      (Ledger.accept? archive.retention now r).map Acceptance.stored := by
  unfold prepare Ledger.accept?
  split
  next unnamed =>
    split
    · rfl
    · rw [dif_neg (by simp [unnamed])]
      rfl
  next named =>
    rw [Bool.not_eq_true] at named
    simp only
    cases (createdAt now r.record).shift? archive.retention with
    | none => rfl
    | some expires =>
      simp only [named, dite_true]
      split
      next infinite =>
        rw [dif_neg (by simp [infinite])]
        rfl
      next finite =>
        rw [dif_pos (Bool.eq_false_of_not_eq_true finite)]
        rfl

theorem accept?_isSome_iff (archive : Archive) (now : Instant) (r : OrderedRecord) :
    (Ledger.accept? archive.retention now r).isSome ↔
      ∃ stored, archive.prepare now r.record = .ok stored := by
  have same := prepare_eq archive now r
  cases made : archive.prepare now r.record with
  | error e =>
    rw [made] at same
    cases accepted : Ledger.accept? archive.retention now r with
    | none => simp
    | some a => simp [accepted, Except.toOption] at same
  | ok stored =>
    rw [made] at same
    cases accepted : Ledger.accept? archive.retention now r with
    | none => simp [accepted, Except.toOption] at same
    | some a => simp

theorem accepted_eq (archive : Archive) (now : Instant) (batch : List OrderedRecord) :
    archive.accepted now (batch.map OrderedRecord.record) =
      (batch.filterMap (Ledger.accept? archive.retention now)).map Acceptance.stored := by
  rw [accepted, List.filterMap_map, List.map_filterMap]
  apply List.filterMap_congr
  intro r _
  exact prepare_eq archive now r

end Archive

theorem RecordKey.eq_of_compare {a b : RecordKey} (equal : compare a b = .eq) : a = b := by
  obtain ⟨created, sequence⟩ := a
  obtain ⟨created', sequence'⟩ := b
  obtain ⟨first, second⟩ := Ordering.then_eq_eq.mp equal
  cases Nat.compare_eq_eq.mp first
  cases Nat.compare_eq_eq.mp second
  rfl

/-- A number that was not drawn before gives the record a place of its own. -/
theorem Store.insert_perm {store : Store}
    (fresh : ∀ entry ∈ store.records, entry.1.sequence < store.next) (r : StoredRecord) :
    (store.insert r).1.records.Perm (((store.insert r).2, r) :: store.records) := by
  apply Table.insert_perm
  intro entry member equal
  have older := fresh entry member
  rw [← RecordKey.eq_of_compare equal] at older
  exact Nat.lt_irrefl _ older

namespace Store.Follows

variable {store : Store} {ledger : List Acceptance}

theorem insert (follows : store.Follows ledger) (a : Acceptance) :
    (store.insert a.stored).1.Follows (ledger ++ [a]) := by
  refine ⟨?_, ?_, ?_⟩
  · have added := (store.insert_perm follows.fresh a.stored).map Prod.snd
    refine added.trans ((follows.same.cons a.stored).trans ?_)
    rw [List.map_append]
    exact (List.perm_append_singleton _ _).symm
  · intro entry member
    rcases Table.mem_insert member with rfl | old
    · rfl
    · exact follows.keyed entry old
  · intro entry member
    rcases Table.mem_insert member with rfl | old
    · exact Nat.lt_succ_self _
    · exact Nat.lt_succ_of_lt (follows.fresh entry old)

theorem insertAll (follows : store.Follows ledger) (accepted : List Acceptance) :
    (store.insertAll (accepted.map Acceptance.stored)).1.Follows (ledger ++ accepted) := by
  induction accepted generalizing store ledger with
  | nil => simpa [Store.insertAll] using follows
  | cons a rest ih =>
    have later := ih (follows.insert a)
    rw [List.append_assoc] at later
    exact later

theorem purge (follows : store.Follows ledger) (now : Instant) :
    (store.purge now.micros).1.Follows (ledger.filter fun a => now.micros < a.expires.micros) := by
  have kept (a : Acceptance) :
      (!a.stored.isExpired now.micros) = decide (now.micros < a.expires.micros) := by
    rw [a.isExpired_stored, ← decide_not, decide_eq_decide, Int.not_le]
  refine ⟨?_, ?_, ?_⟩
  · have live := follows.same.filter fun r => !r.isExpired now.micros
    rw [List.filter_map, List.filter_map] at live
    simp only [Function.comp_def, kept] at live
    exact live
  · intro entry member
    exact follows.keyed entry (List.mem_filter.mp member).1
  · intro entry member
    exact follows.fresh entry (List.mem_filter.mp member).1

end Store.Follows

namespace Archive

theorem step_retention (archive : Archive) (s : Step) :
    (archive.step s).retention = archive.retention ∧ (archive.step s).players = archive.players := by
  cases s <;> exact ⟨rfl, rfl⟩

theorem step_follows {archive : Archive} {ledger : List Acceptance}
    (follows : archive.store.Follows ledger) (s : Step) :
    (archive.step s).store.Follows (Ledger.step archive.retention ledger s) := by
  cases s with
  | write now batch =>
    simp only [step, write, accepted_eq]
    exact follows.insertAll _
  | purge now => exact follows.purge now

/-- Every run keeps the store in line with the ledger, and the settings as they were. -/
theorem run_follows (retention : Nat) (players : Option Players) (steps : List Step) :
    (run retention players steps).store.Follows (Ledger.run retention steps) ∧
      (run retention players steps).retention = retention ∧
      (run retention players steps).players = players := by
  induction steps using List.reverseRecOn with
  | nil =>
    refine ⟨⟨.refl _, ?_, ?_⟩, rfl, rfl⟩ <;> intro entry member <;> cases member
  | append_singleton steps s ih =>
    obtain ⟨follows, same, same'⟩ := ih
    have settings := step_retention (run retention players steps) s
    rw [run, Ledger.run, List.foldl_append, List.foldl_append]
    refine ⟨?_, settings.1.trans same, settings.2.trans same'⟩
    have after := step_follows follows s
    rw [same] at after
    exact after

end Archive

namespace Value

theorem soundFields_iff {fields : List (String × Value)} :
    SoundFields fields ↔ ∀ field ∈ fields, field.2.Sound := by
  induction fields with
  | nil => simp [SoundFields]
  | cons field rest ih =>
    obtain ⟨name, v⟩ := field
    simp [SoundFields, ih]

end Value

namespace Acceptance

theorem ordered_document (a : Acceptance) : Table.Ordered a.document :=
  ((Document.ordered_ofRecord a.source.ordered).insert _ _).insert _ _

theorem sound_document (a : Acceptance) : Value.SoundFields a.document := by
  have source := Datum.sound_ofEntries a.source.record a.source.inner a.finite
  rw [Value.soundFields_iff] at source ⊢
  intro field member
  rcases Table.mem_insert member with rfl | member
  · trivial
  rcases Table.mem_insert member with rfl | member
  · trivial
  · exact source field member

/-- An acceptance is readable when its stored text is not nested deeper than the reader goes. -/
def Readable (a : Acceptance) : Prop := a.document.height ≤ Json.deepest

instance (a : Acceptance) : Decidable a.Readable :=
  inferInstanceAs (Decidable (a.document.height ≤ Json.deepest))

/-- The document that a scan at the time `now` finds, if any. -/
def scanned? (now : Int) (a : Acceptance) : Option Document :=
  if now < a.expires.micros ∧ a.Readable then some a.document.reread else none

theorem scanned?_some {now : Int} {a : Acceptance} {d : Document} (found : a.scanned? now = some d) :
    now < a.expires.micros ∧ a.Readable ∧ d = a.document.reread := by
  unfold scanned? at found
  split at found
  next both =>
    cases found
    exact ⟨both.1, both.2, rfl⟩
  next => cases found

theorem live?_stored (now : Int) (a : Acceptance) :
    Store.live? now a.stored = a.scanned? now := by
  have read : a.stored.document? = if a.Readable then some a.document.reread else none :=
    Document.ofStored?_stored a.ordered_document a.sound_document
  rw [Store.live?, a.isExpired_stored, read, scanned?]
  by_cases expired : a.expires.micros ≤ now
  · have late : ¬ (now < a.expires.micros ∧ a.Readable) := by
      intro both
      exact Int.not_lt.mpr expired both.1
    rw [if_pos (by simpa using expired), if_neg late]
  · rw [if_neg (by simpa using expired)]
    simp only [Int.not_le.mp expired, true_and]

theorem find?_document (a : Acceptance) (name : String) :
    Table.find? name a.document =
      if name = "expires" then some (.instant a.expires)
      else if name = "created" then some (.instant a.created)
      else (Table.find? name a.source.record).bind (Value.ofNamed? name) := by
  rw [document, Table.find?_insert, Table.find?_insert, Document.find?_ofRecord a.source.ordered]

theorem created_reread (a : Acceptance) :
    Document.instant? a.document.reread "created" = some a.created.reread := by
  rw [Document.instant?, Document.find?_reread, a.find?_document]
  rfl

theorem ofDocument_reread (a : Acceptance) :
    Record.ofDocument a.document.reread = a.dated a.source.record.readBack := by
  have ordered := Document.ordered_reread a.ordered_document
  refine Table.ext_of_find? (Record.ordered_ofDocument ordered)
    (((Record.ordered_readBack a.source.ordered).insert _ _).insert _ _) ?_
  intro name
  rw [Record.find?_ofDocument ordered, Document.find?_reread, a.find?_document, dated,
    Table.find?_insert, Table.find?_insert, Record.find?_readBack a.source.ordered]
  split
  · rfl
  split
  · rfl
  cases Table.find? name a.source.record with
  | none => rfl
  | some v => cases made : Value.ofNamed? name v <;> simp [made]

end Acceptance

theorem Store.Follows.entry {store : Store} {ledger : List Acceptance}
    (follows : store.Follows ledger) {entry : RecordKey × StoredRecord}
    (member : entry ∈ store.records) :
    ∃ a ∈ ledger, entry.2 = a.stored ∧ entry.1.created = Store.keyTime a.created.micros := by
  have known := follows.same.mem_iff.1 (List.mem_map_of_mem (f := Prod.snd) member)
  obtain ⟨a, accepted, same⟩ := List.mem_map.mp known
  refine ⟨a, accepted, same.symm, ?_⟩
  rw [follows.keyed entry member, ← same]
  exact congrArg Store.keyTime a.created.toInt_micros

theorem Store.Follows.mem_scanSince {store : Store} {ledger : List Acceptance}
    (follows : store.Follows ledger) {since now : Int} {d : Document}
    (member : d ∈ store.scanSince since now) :
    ∃ a ∈ ledger, a.scanned? now = some d ∧
      Store.keyTime since ≤ Store.keyTime a.created.micros := by
  obtain ⟨entry, kept, alive⟩ := List.mem_filterMap.mp member
  obtain ⟨stored, late⟩ := List.mem_filter.mp kept
  obtain ⟨a, accepted, same, time⟩ := follows.entry stored
  rw [same, a.live?_stored] at alive
  exact ⟨a, accepted, alive, time ▸ of_decide_eq_true late⟩

theorem Store.scan_eq (store : Store) (now : Int) :
    store.scan now = store.records.filterMap fun entry => Store.live? now entry.2 := by
  have every : (store.records.filter fun entry => Store.keyTime 0 ≤ entry.1.created) =
      store.records := by
    apply List.filter_eq_self.mpr
    intro entry _
    simp [Store.keyTime]
  rw [Store.scan, Store.scanSince, every]

/-- A full scan finds what the ledger has readable and live. -/
theorem Store.Follows.scan_perm {store : Store} {ledger : List Acceptance}
    (follows : store.Follows ledger) (now : Int) :
    (store.scan now).Perm (ledger.filterMap (Acceptance.scanned? now)) := by
  have all : store.scan now = (store.records.map Prod.snd).filterMap (Store.live? now) := by
    rw [store.scan_eq, List.filterMap_map]
    rfl
  rw [all]
  refine (follows.same.filterMap (Store.live? now)).trans (.of_eq ?_)
  rw [List.filterMap_map]
  apply List.filterMap_congr
  intro a _
  exact a.live?_stored now

namespace Archive

/-- What a run has accepted and not purged, and what has not expired at the time `now`. -/
def live (retention : Nat) (steps : List Step) (now : Instant) : List Acceptance :=
  (Ledger.survivors retention steps).filter fun a => now.micros < a.expires.micros

theorem scan_perm_live (retention : Nat) (players : Option Players) (steps : List Step)
    (now : Instant) :
    ((run retention players steps).store.scan now.micros).Perm
      (((live retention steps now).filter fun a => a.Readable).map fun a => a.document.reread) := by
  have follows := (run_follows retention players steps).1
  rw [Ledger.run_eq_survivors] at follows
  refine (follows.scan_perm now.micros).trans (.of_eq ?_)
  unfold live
  rw [List.filter_filter, ← List.filterMap_eq_map, List.filterMap_filter]
  apply List.filterMap_congr
  intro a _
  rw [Acceptance.scanned?]
  by_cases readable : a.Readable <;> by_cases early : now.micros < a.expires.micros <;>
    simp [readable, early]

theorem mem_scanSince_live {retention : Nat} {players : Option Players} {steps : List Step}
    {now : Instant} {since : Int} {d : Document}
    (member : d ∈ (run retention players steps).store.scanSince since now.micros) :
    ∃ a ∈ live retention steps now, a.Readable ∧ d = a.document.reread ∧
      Store.keyTime since ≤ Store.keyTime a.created.micros := by
  have follows := (run_follows retention players steps).1
  rw [Ledger.run_eq_survivors] at follows
  obtain ⟨a, survives, found, late⟩ := follows.mem_scanSince member
  obtain ⟨early, readable, rfl⟩ := Acceptance.scanned?_some found
  exact ⟨a, List.mem_filter.mpr ⟨survives, decide_eq_true early⟩, readable, rfl, late⟩

def noon : Instant := .whole 1718452800 (by decide) (by decide)

def flat : OrderedRecord :=
  ⟨[("event", .text "break"), ("height", .double ⟨0x3FF8000000000000⟩)], by decide,
    ⟨trivial, trivial, trivial⟩⟩

end Archive

end AuditLog
