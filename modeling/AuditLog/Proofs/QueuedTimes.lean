import AuditLog.Proofs.ConsoleSearch
import AuditLog.Proofs.RecordLines

/-! The times of a record that is queued from a console line and written later. The event is the
one that the line names, and the record expires its retention after its creation, whatever the line
puts under these names. It was created when it was queued, unless the line puts something under that
name: then it is dated by the clock when it is written. -/
namespace AuditLog

namespace Datum

/-- The tables in the value are in order at every depth, and its doubles are finite. -/
structure Proper (v : Datum) : Prop where
  ordered : v.InOrder
  finite : v.hasNonFinite = false

theorem hasNonFiniteEntry_eq_false {entries : List (String × Datum)} :
    hasNonFiniteEntry entries = false ↔ ∀ entry ∈ entries, entry.2.hasNonFinite = false := by
  induction entries with
  | nil => simp [hasNonFiniteEntry]
  | cons entry rest ih => simp [hasNonFiniteEntry, ih]

theorem proper_entrywise : Record.Entrywise Proper := by
  intro entries
  constructor
  · rintro ⟨⟨ordered, inner⟩, finite⟩
    rw [hasNonFinite, hasNonFiniteEntry_eq_false] at finite
    rw [entriesInOrder_iff] at inner
    exact ⟨ordered, fun entry member => ⟨inner entry member, finite entry member⟩⟩
  · rintro ⟨ordered, proper⟩
    refine ⟨⟨ordered, entriesInOrder_iff.mpr fun entry member => (proper entry member).ordered⟩, ?_⟩
    rw [hasNonFinite, hasNonFiniteEntry_eq_false]
    exact fun entry member => (proper entry member).finite

theorem Proper.of_primitive {v : Datum} (primitive : v.isPrimitive = true)
    (finite : v.hasNonFinite = false) : v.Proper := ⟨inOrder_of_primitive primitive, finite⟩

end Datum

namespace Record

variable {r : Record} {v : Datum}

theorem proper_empty : (Datum.record []).Proper := Datum.proper_entrywise.empty

theorem proper_setAt (path : List String) (proper : (Datum.record r).Proper) (value : v.Proper) :
    (Datum.record (setAt path v r)).Proper :=
  Datum.proper_entrywise.setAt path proper value

theorem proper_setAll {entries : List (Path × Datum)} (proper : (Datum.record r).Proper)
    (values : ∀ entry ∈ entries, entry.2.Proper) :
    (Datum.record (setAll r entries)).Proper :=
  Datum.proper_entrywise.setAll proper values

/-- The instants in a record are those that were set there. -/
theorem instant?_setAll {entries : List (Path × Datum)} {name : String}
    (timeless : ∀ entry ∈ entries, entry.2.instant? = none) :
    (setAll [] entries).instant? (.of name) = none := by
  change (Table.find? name (setAll [] entries)).bind Datum.instant? = none
  induction entries using List.reverseRecOn with
  | nil => rfl
  | append_singleton entries entry ih =>
    obtain ⟨before, last⟩ := List.forall_mem_append.mp timeless
    rw [setAll_concat, set, find?_setAt]
    cases entry.1.segments with
    | nil => exact ih before
    | cons first rest =>
      by_cases same : name = first
      · cases rest with
        | nil => simpa [same, placed] using last entry List.mem_cons_self
        | cons next rest => simp [same, placed, Datum.instant?]
      · simpa [same] using ih before

end Record

namespace Queue

variable (submitted : Instant) (event : String) {data : Record}

theorem find?_event_stamped :
    Table.find? "event" (stamped submitted event data) = some (.text event) := by
  have named : Record.get? (Record.set data Field.event (.text event)) Field.event =
      some (.text event) := Record.get?_set_self _ (by decide)
  rw [stamped]
  split
  · exact named
  · exact (Record.find?_setAt _ _ _).trans named

/-- A stamped record was created when it was queued, unless it already had something under that
name: then by the instant there, or else by the clock when it is written. -/
theorem createdAt_stamped (later : Instant) :
    Archive.createdAt later (stamped submitted event data) =
      if (Record.get? data Field.created).isSome then (data.instant? Field.created).getD later
      else submitted := by
  have kept : Record.get? (Record.set data Field.event (.text event)) Field.created =
      Record.get? data Field.created := Record.find?_setAt _ _ _
  rw [stamped, kept, Archive.createdAt]
  split
  · rw [Record.instant?, kept]
    rfl
  · have fresh : Record.get? (Record.set (Record.set data Field.event (.text event)) Field.created
        (.instant submitted)) Field.created = some (.instant submitted) :=
      Record.get?_set_self _ (by decide)
    rw [Record.instant?, fresh]
    rfl

theorem proper_stamped (proper : (Datum.record data).Proper) :
    (Datum.record (stamped submitted event data)).Proper := by
  have named := Record.proper_setAt Field.event.segments proper
    (v := .text event) ⟨trivial, rfl⟩
  rw [stamped]
  split
  · exact named
  · exact Record.proper_setAt _ named ⟨trivial, rfl⟩

end Queue

namespace Store

variable {store : Store} {key : RecordKey}

/-- Insertion leaves the records whose numbers were drawn before. -/
theorem get?_insertAll_old (old : key.sequence < store.next) (records : List StoredRecord) :
    (store.insertAll records).1.get? key = store.get? key := by
  induction records generalizing store with
  | nil => rfl
  | cons r rest ih =>
    have apart : key ≠ (store.insert r).2 := by
      rintro rfl
      exact Nat.lt_irrefl _ old
    have later : ((store.insert r).1.insertAll rest).1.get? key = (store.insert r).1.get? key :=
      ih (Nat.lt_succ_of_lt old)
    exact later.trans ((Table.find?_insert _ _ _ _).trans (if_neg apart))

/-- Each inserted record is found under a number that was not drawn before. -/
theorem get?_insertAll {r : StoredRecord} {records : List StoredRecord} (member : r ∈ records) :
    ∃ key, store.next ≤ key.sequence ∧ (store.insertAll records).1.get? key = some r := by
  induction records generalizing store with
  | nil => cases member
  | cons first rest ih =>
    rcases List.mem_cons.mp member with rfl | later
    · refine ⟨(store.insert r).2, Nat.le_refl _, ?_⟩
      have drawn : (store.insert r).2.sequence < (store.insert r).1.next := Nat.lt_succ_self _
      refine (get?_insertAll_old drawn rest).trans ?_
      exact (Table.find?_insert _ _ _ _).trans (if_pos rfl)
    · have others : ∃ key, (store.insert first).1.next ≤ key.sequence ∧
          ((store.insert first).1.insertAll rest).1.get? key = some r := ih later
      obtain ⟨key, drawn, found⟩ := others
      exact ⟨key, Nat.le_of_succ_le drawn, found⟩

end Store

/-- The event and the times that a stored document gives. -/
structure Document.Dates (d : Document) (event : String) (created expires : Instant) : Prop where
  event : Table.find? "event" d = some (.text event)
  created : Table.find? "created" d = some (.instant created)
  expires : Table.find? "expires" d = some (.instant expires)

/-- A record is stored with an event and times: in its document, in what is read back of it, where the
times are those that their texts give, and in the microseconds beside it. -/
structure StoredRecord.Dates (stored : StoredRecord) (event : String) (created expires : Instant) :
    Prop where
  document : ∃ d : Document, stored.text = d.stored ∧ d.Dates event created expires
  read : ∀ d, stored.document? = some d → d.Dates event created.reread expires.reread
  created : stored.created.toInt = created.micros
  expires : stored.expires.map Int64.toInt = some expires.micros

theorem Acceptance.dates_stored (a : Acceptance) {event : String}
    (named : Table.find? "event" a.source.record = some (.text event)) :
    a.stored.Dates event a.created a.expires := by
  have dates : a.document.Dates event a.created a.expires := by
    refine ⟨?_, ?_, ?_⟩
    · rw [a.find?_document, named]
      rfl
    · rw [a.find?_document]
      rfl
    · rw [a.find?_document]
      rfl
  refine ⟨⟨a.document, rfl, dates⟩, ?_, a.created.toInt_micros, ?_⟩
  · intro d read
    have reread : a.stored.document? = if a.document.height ≤ Json.deepest then
        some a.document.reread else none :=
      Document.ofStored?_stored a.ordered_document a.sound_document
    rw [reread] at read
    split at read
    next =>
      cases read
      refine ⟨?_, ?_, ?_⟩
      · rw [Document.find?_reread, dates.event]
        rfl
      · rw [Document.find?_reread, dates.created]
        rfl
      · rw [Document.find?_reread, dates.expires]
        rfl
    next => cases read
  · exact congrArg some a.expires.toInt_micros

theorem Ledger.accept?_spec {retention : Nat} {now : Instant} {r : OrderedRecord} {a : Acceptance}
    (accepted : accept? retention now r = some a) :
    a.source = r ∧ a.created = Archive.createdAt now r.record ∧
      (Archive.createdAt now r.record).shift? retention = some a.expires := by
  rw [accept?] at accepted
  split at accepted
  next => cases accepted
  next expires shifted =>
    split at accepted
    next =>
      split at accepted
      next =>
        cases accepted
        exact ⟨rfl, rfl, shifted⟩
      next => cases accepted
    next => cases accepted

/-- A proper record of a named event is accepted when it can be kept for as long as it has to be,
and is stored with its event and times. -/
theorem Archive.prepare_dates (archive : Archive) (now : Instant) {r : Record} {event : String}
    (proper : (Datum.record r).Proper) (named : event ≠ "")
    (found : Table.find? "event" r = some (.text event)) :
    ((∃ stored, archive.prepare now r = .ok stored) ↔
      ((createdAt now r).shift? archive.retention).isSome) ∧
    ∀ stored, archive.prepare now r = .ok stored → ∃ expires,
      (createdAt now r).shift? archive.retention = some expires ∧
      stored.Dates event (createdAt now r) expires := by
  let source : OrderedRecord := ⟨r, proper.ordered.1, proper.ordered.2⟩
  have text : r.text? Field.event = some event := by
    change (Table.find? "event" r).bind Datum.text? = some event
    rw [found]
    rfl
  have finite : r.hasNonFinite = false := proper.finite
  constructor
  · have kept : r.Writable archive.retention now ↔
        ((createdAt now r).shift? archive.retention).isSome := by
      rw [Record.writable_iff, text, finite]
      simp [Option.filter, named]
    rw [← kept]
    rcases archive.prepare_spec now r with ⟨writable, stored, made, -⟩ | ⟨unwritable, none⟩
    · refine iff_of_true ?_ writable
      cases prepared : archive.prepare now r with
      | error e =>
        rw [prepared] at made
        cases made
      | ok stored => exact ⟨stored, rfl⟩
    · refine iff_of_false ?_ unwritable
      rintro ⟨stored, prepared⟩
      rw [prepared] at none
      cases none
  · intro stored prepared
    have same := archive.prepare_eq now source
    rw [prepared] at same
    obtain ⟨a, accepted, rfl⟩ := Option.map_eq_some_iff.mp same.symm
    obtain ⟨origin, created, expires⟩ := Ledger.accept?_spec accepted
    have record : a.source.record = r := congrArg OrderedRecord.record origin
    rw [← record] at found
    have dates := a.dates_stored found
    rw [created] at dates
    exact ⟨a.expires, expires, dates⟩

namespace Service

/-- Carries out commands one after the other. -/
def carried (service : Service) (steps : List (Instant × Console.Command)) : Service :=
  steps.foldl (fun service step => (service.execute step.1 step.2).1) service

/-- A flush writes what is pending. -/
theorem flush_archive (service : Service) (now : Instant) :
    (service.flush now).1.archive = (service.archive.write now service.queue.pending).1 := by
  rw [flush, Queue.flush, Queue.take]
  cases service.queue.pending with
  | nil => rfl
  | cons r rest =>
    rcases written : service.archive.write now (r :: rest) with ⟨archive, _ | failure⟩
    · simp only [written]
    · simp only [written]

theorem execute_retention (service : Service) (now : Instant) (command : Console.Command) :
    (service.execute now command).1.archive.retention = service.archive.retention := by
  cases command with
  | flush =>
    change (service.flush now).1.archive.retention = _
    rw [flush_archive]
    rfl
  | _ => rfl

/-- Nothing leaves the queue but by a flush. -/
theorem execute_pending (service : Service) (now : Instant) {command : Console.Command}
    (waits : command ≠ .flush) :
    service.queue.pending <+: (service.execute now command).1.queue.pending := by
  cases command with
  | flush => exact absurd rfl waits
  | record event data => exact List.prefix_append _ _
  | _ => exact List.prefix_rfl

theorem carried_keeps (service : Service) {steps : List (Instant × Console.Command)}
    (waiting : ∀ step ∈ steps, step.2 ≠ .flush) :
    service.queue.pending <+: (service.carried steps).queue.pending ∧
      (service.carried steps).archive.retention = service.archive.retention := by
  induction steps generalizing service with
  | nil => exact ⟨List.prefix_rfl, rfl⟩
  | cons step rest ih =>
    obtain ⟨here, later⟩ := List.forall_mem_cons.mp waiting
    obtain ⟨pending, retention⟩ := ih (service.execute step.1 step.2).1 later
    exact ⟨(service.execute_pending step.1 here).trans pending,
      retention.trans (service.execute_retention step.1 step.2)⟩

/-- What a flush accepts of the queue is found in the archive under a new number. -/
theorem flush_stores (service : Service) (now : Instant) {r : Record} {stored : StoredRecord}
    (pending : r ∈ service.queue.pending) (prepared : service.archive.prepare now r = .ok stored) :
    ∃ key, service.archive.store.next ≤ key.sequence ∧
      (service.flush now).1.archive.store.get? key = some stored := by
  have accepted : stored ∈ service.archive.accepted now service.queue.pending := by
    refine List.mem_filterMap.mpr ⟨r, pending, ?_⟩
    rw [prepared]
    rfl
  rw [flush_archive]
  exact Store.get?_insertAll accepted

end Service

theorem Text.ne_empty_of_mem_words {s word : String} (member : word ∈ Text.words s) :
    word ≠ "" := by
  obtain ⟨piece, kept, rfl⟩ := List.mem_map.mp member
  rintro empty
  rw [String.ofList_eq_empty_iff.mp empty] at kept
  simp at kept

namespace Console.Command

/-- One of the words puts something under the name of the time of creation. -/
def Dated (tokens : List String) : Prop :=
  ∃ token ∈ tokens, ∃ key value, Assigns token key value ∧ (Path.parse key).first? = some "created"

variable {tokens : List String} {entries : List (Path × Datum)}

theorem dated_iff (read : tokens.mapM assignment? = .ok entries) :
    Dated tokens ↔ (Record.get? (Record.setAll [] entries) Field.created).isSome := by
  rw [Field.created, Record.get?_setAll_name]
  constructor
  · rintro ⟨token, member, key, value, assigns, starts⟩
    obtain ⟨before, after, rfl⟩ := List.append_of_mem member
    obtain ⟨first, later, rfl, -⟩ := mapM_assignment?_cut (assignment?_of_assigns assigns) read
    exact ⟨_, List.mem_append_cons_self, starts⟩
  · rintro ⟨entry, member, starts⟩
    obtain ⟨token, among, key, value, assigns, rfl⟩ := assigns_of_mem read member
    exact ⟨token, among, key, value, assigns, starts⟩

/-- What a line puts into a record is proper and has no instants. -/
theorem recorded_values (read : tokens.mapM assignment? = .ok entries) :
    ∀ entry ∈ entries, entry.2.Proper ∧ entry.2.instant? = none := by
  intro entry member
  obtain ⟨token, -, key, value, -, rfl⟩ := assigns_of_mem read member
  exact ⟨.of_primitive (isPrimitive_valueOf value) (hasNonFinite_valueOf value),
    instant?_valueOf value⟩

end Console.Command

namespace Service

open Console.Command

/-- A line that is carried out as a record command submits what its words assign. -/
theorem reply_recorded {service queued : Service} {line word given : String}
    {tokens : List String} {reply : Option String} {submitted : Instant}
    (words : Text.words line = word :: given :: tokens) (command : Text.lower word = "record")
    (carriedOut : service.reply submitted line = .ok (queued, reply)) :
    ∃ entries, tokens.mapM assignment? = .ok entries ∧
      queued = service.submit submitted (Text.lower given) (Record.setAll [] entries) := by
  obtain ⟨arguments, rest, parsed⟩ := parse_of_record_words words command
  rw [Service.reply, parsed] at carriedOut
  obtain ⟨-, problem, failed⟩ | ⟨event, others, entries, split, -, read, made⟩ :=
    recordOf_cases arguments
  · rw [failed] at carriedOut
    cases carriedOut
  · rw [rest] at split
    cases split
    rw [made] at carriedOut
    cases carriedOut
    exact ⟨entries, read, rfl⟩

/-- A record that a line has put into the queue is accepted by the next flush when it can be kept
for as long as it has to be. It is stored with the event that the line names. It was created when it
was queued, or by the clock of the flush where the line puts something under that name, and expires
its retention after that. -/
theorem queued_record_dates {service queued : Service} {line word given : String}
    {tokens : List String} {reply : Option String} {submitted later : Instant}
    {between : List (Instant × Console.Command)}
    (words : Text.words line = word :: given :: tokens) (command : Text.lower word = "record")
    (carriedOut : service.reply submitted line = .ok (queued, reply))
    (waiting : ∀ step ∈ between, step.2 ≠ .flush) :
    ∃ r created, queued.queue.pending = service.queue.pending ++ [r] ∧
      r ∈ (queued.carried between).queue.pending ∧
      (Dated tokens → created = later) ∧ (¬ Dated tokens → created = submitted) ∧
      ((∃ stored, (queued.carried between).archive.prepare later r = .ok stored) ↔
        (created.shift? service.archive.retention).isSome) ∧
      ∀ stored, (queued.carried between).archive.prepare later r = .ok stored → ∃ key expires,
        (queued.carried between).archive.store.next ≤ key.sequence ∧
        ((queued.carried between).flush later).1.archive.store.get? key = some stored ∧
        created.shift? service.archive.retention = some expires ∧
        stored.Dates (Text.lower given) created expires := by
  obtain ⟨entries, read, rfl⟩ := reply_recorded words command carriedOut
  let data := Record.setAll [] entries
  let r := Queue.stamped submitted (Text.lower given) data
  let waited := (service.submit submitted (Text.lower given) data).carried between
  have values := recorded_values read
  have proper : (Datum.record r).Proper :=
    Queue.proper_stamped submitted _ <| Record.proper_setAll Record.proper_empty
      fun entry member => (values entry member).1
  have named : Text.lower given ≠ "" := by
    have member : given ∈ Text.words line := by
      rw [words]
      exact List.mem_cons_of_mem _ List.mem_cons_self
    intro empty
    have letters := List.map_eq_nil_iff.mp (String.ofList_eq_empty_iff.mp empty)
    exact Text.ne_empty_of_mem_words member (String.toList_eq_nil_iff.mp letters)
  have created : Archive.createdAt later r =
      if (Record.get? data Field.created).isSome then later else submitted := by
    have timeless : data.instant? Field.created = none :=
      Record.instant?_setAll fun entry member => (values entry member).2
    rw [Queue.createdAt_stamped, timeless]
    rfl
  obtain ⟨pending, retention⟩ :=
    (service.submit submitted (Text.lower given) data).carried_keeps waiting
  have member : r ∈ waited.queue.pending :=
    pending.subset (List.mem_append_right _ (List.mem_singleton_self r))
  obtain ⟨accepted, dates⟩ := waited.archive.prepare_dates later proper named
    (Queue.find?_event_stamped submitted _)
  have kept : waited.archive.retention = service.archive.retention := retention
  rw [kept] at accepted dates
  refine ⟨r, Archive.createdAt later r, rfl, member, ?_, ?_, accepted, ?_⟩
  · intro dated
    rw [created, if_pos ((dated_iff read).mp dated)]
  · intro undated
    rw [created, if_neg (mt (dated_iff read).mpr undated)]
  · intro stored prepared
    obtain ⟨key, drawn, found⟩ := waited.flush_stores later member prepared
    obtain ⟨expires, shifted, dated⟩ := dates stored prepared
    exact ⟨key, expires, drawn, found, shifted, dated⟩

/-- An hour after noon. -/
def hourAfter : Instant := .whole 1718456400 (by decide) (by decide)

theorem soon_overwritten : ∃ queued reply,
    fresh.reply Archive.noon "record Break event.x=2  expires=8" = .ok (queued, reply) ∧
      ∃ key stored expires, (queued.flush hourAfter).1.archive.store.get? key = some stored ∧
        Archive.noon.shift? 2419200 = some expires ∧
        stored.Dates "break" Archive.noon expires := by
  have words : Text.words "record Break event.x=2  expires=8" =
      "record" :: "Break" :: ["event.x=2", "expires=8"] := by decide
  have read : ["event.x=2", "expires=8"].mapM assignment? =
      .ok [(.parse "event.x", .int 2), (.parse "expires", .int 8)] := rfl
  have undated : ¬ Dated ["event.x=2", "expires=8"] :=
    mt (dated_iff read).mp (by decide)
  have carriedOut : fresh.reply Archive.noon "record Break event.x=2  expires=8" =
      .ok (fresh.submit Archive.noon "break" [("event", .record [("x", .int 2)]),
        ("expires", .int 8)], some "Queued break record (1 pending)") := rfl
  have none : ∀ step ∈ ([] : List (Instant × Console.Command)), step.2 ≠ .flush := by simp
  obtain ⟨r, created, -, -, -, atNoon, accepted, dates⟩ :=
    queued_record_dates words (by decide) carriedOut none
  cases atNoon undated
  obtain ⟨stored, prepared⟩ := accepted.mpr (by decide)
  obtain ⟨key, expires, -, found, shifted, dated⟩ := dates stored prepared
  exact ⟨_, _, carriedOut, key, stored, expires, found, shifted, dated⟩

/-- A number under the name of the time of creation keeps the time of queueing out and is no time
itself. -/
theorem dated_by_flush : ∃ queued reply,
    fresh.reply Archive.noon "record break created=5" = .ok (queued, reply) ∧
      (queued.flush hourAfter).1.archive.store.records.map (fun entry => entry.2.created.toInt) =
        [hourAfter.micros] ∧
      hourAfter.micros ≠ Archive.noon.micros :=
  ⟨_, _, rfl, by decide +kernel, by decide⟩

end Service
end AuditLog
