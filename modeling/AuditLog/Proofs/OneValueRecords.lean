import AuditLog.Proofs.AcceptedRecords
import AuditLog.Proofs.AggregateCounts
import AuditLog.Proofs.BatchWrites
import AuditLog.Proofs.NamedSearch
import AuditLog.Queue

/-! A record of an event with one value, which is queued, written and searched for by a text, all at
one clock value. The record is returned exactly when it can be kept and the text is its value. -/
namespace AuditLog

/-- The field has a name, and no record gets it from the program itself. -/
structure Free (field : String) : Prop where
  named : field.isEmpty = false
  event : field ≠ "event"
  created : field ≠ "created"
  expires : field ≠ "expires"
  player : field ≠ "player"

instance (field : String) : Decidable (Free field) :=
  decidable_of_iff (field.isEmpty = false ∧ field ≠ "event" ∧ field ≠ "created" ∧
      field ≠ "expires" ∧ field ≠ "player")
    ⟨fun ⟨named, event, created, expires, player⟩ => ⟨named, event, created, expires, player⟩,
      fun free => ⟨free.named, free.event, free.created, free.expires, free.player⟩⟩

namespace Queue

variable {field : String} (free : Free field) (now : Instant) (event : String) (v : Datum)

include free

theorem stamped_eq : stamped now event [(field, v)] =
    Table.insert "created" (.instant now) (Table.insert "event" (.text event) [(field, v)]) := by
  have none : Record.get? (Table.insert "event" (.text event) [(field, v)]) Field.created =
      Option.none := by
    change Table.find? "created" (Table.insert "event" (.text event) [(field, v)]) = Option.none
    rw [Table.find?_insert, if_neg (by decide), Table.find?, if_neg free.created.symm, Table.find?]
  have named : Record.set [(field, v)] Field.event (.text event) =
      Table.insert "event" (.text event) [(field, v)] := rfl
  rw [stamped, named, none]
  rfl

theorem find?_stamped (name : String) : Table.find? name (stamped now event [(field, v)]) =
    if name = "created" then some (.instant now)
    else if name = "event" then some (.text event)
    else if name = field then some v
    else none := by
  rw [stamped_eq free, Table.find?_insert, Table.find?_insert]
  rfl

theorem mem_stamped {entry : String × Datum} (member : entry ∈ stamped now event [(field, v)]) :
    entry.2 = .instant now ∨ entry.2 = .text event ∨ entry.2 = v := by
  rw [stamped_eq free] at member
  rcases Table.mem_insert member with rfl | member
  · exact .inl rfl
  rcases Table.mem_insert member with rfl | member
  · exact .inr (.inl rfl)
  · cases List.mem_singleton.mp member
    exact .inr (.inr rfl)

theorem ordered_stamped : Table.Ordered (stamped now event [(field, v)]) := by
  rw [stamped_eq free]
  exact (Table.Ordered.insert (List.pairwise_singleton _ _) _ _).insert _ _

end Queue

namespace Datum

theorem text?_eq_some {v : Datum} {s : String} : v.text? = some s ↔ v = .text s := by
  cases v <;> simp [text?]

theorem height_of_primitive {v : Datum} (primitive : v.isPrimitive = true) {e : Value}
    (made : Value.ofDatum? v = some e) : e.height = 1 := by
  cases v with
  | record entries => cases primitive
  | list items => cases primitive
  | _ =>
    cases made
    rfl

end Datum

namespace Instant

/-- Moving an instant leaves no leap second. Backward from one it starts a second later. -/
theorem shift?_spec {t u : Instant} {span : Int} (moved : span ≠ 0)
    (shifted : t.shift? span = some u) : u.nanos < 1000000000 ∧
      (u.seconds = t.seconds + span ∨ (span < 0 ∧ u.seconds = t.seconds + 1 + span)) := by
  have nanos := t.nanos_lt
  rw [shift?, if_neg moved] at shifted
  split at shifted
  next plain =>
    obtain ⟨seconds, nanos⟩ := of?_some shifted
    omega
  next leap =>
    obtain ⟨seconds, nanos⟩ := of?_some shifted
    split at seconds <;> omega

/-- A clock shows no leap second, and nothing before the epoch. -/
theorem ofClock?_spec {t : Instant} {ns : Int} (shown : ofClock? ns = some t) :
    0 ≤ t.seconds ∧ t.nanos < 1000000000 := by
  unfold ofClock? at shown
  split at shown
  next =>
    obtain ⟨seconds, nanos⟩ := of?_some shown
    omega
  next => cases shown

theorem micros_shift {t u : Instant} {span : Nat} (long : 1 < span)
    (shifted : t.shift? span = some u) : t.micros < u.micros := by
  have nanos := t.nanos_lt
  obtain ⟨-, seconds⟩ := shift?_spec (by omega) shifted
  unfold micros
  omega

end Instant

/-- A scan from a time on finds what the ledger has readable, live and created late enough. -/
theorem Store.Follows.scanSince_perm {store : Store} {ledger : List Acceptance}
    (follows : store.Follows ledger) (since now : Int) :
    (store.scanSince since now).Perm
      ((ledger.filter fun a => keyTime since ≤ keyTime a.created.micros).filterMap
        (Acceptance.scanned? now)) := by
  have late : store.scanSince since now =
      ((store.records.map Prod.snd).filter fun r =>
        keyTime since ≤ keyTime r.created.toInt).filterMap (live? now) := by
    rw [scanSince, List.filter_map, List.filterMap_map]
    congr 1
    apply List.filter_congr
    intro entry member
    rw [follows.keyed entry member]
    rfl
  rw [late]
  refine ((follows.same.filter _).filterMap (live? now)).trans (.of_eq ?_)
  rw [List.filter_map, List.filterMap_map]
  have created (a : Acceptance) : a.stored.created.toInt = a.created.micros :=
    a.created.toInt_micros
  simp only [Function.comp_def, created]
  apply List.filterMap_congr
  intro a _
  exact a.live?_stored now

/-- A record of an event with one value, as it is queued. -/
def oneValue {field : String} (free : Free field) (now : Instant) (event : String) {v : Datum}
    (primitive : v.isPrimitive = true) : OrderedRecord where
  record := Queue.stamped now event [(field, v)]
  ordered := Queue.ordered_stamped free now event v
  inner := by
    rw [Datum.entriesInOrder_iff]
    intro entry member
    apply Datum.inOrder_of_primitive
    rcases Queue.mem_stamped free now event v member with same | same | same
    · rw [same]
      rfl
    · rw [same]
      rfl
    · rw [same]
      exact primitive

section OneValue

variable {field : String} (free : Free field) (now : Instant) {event : String} {v : Datum}
  (primitive : v.isPrimitive = true)

theorem text?_oneValue (name : String) :
    (oneValue free now event primitive).record.text? (.of name) =
      if name = "created" then none
      else if name = "event" then some event
      else if name = field then v.text?
      else none := by
  change (Table.find? name (Queue.stamped now event [(field, v)])).bind Datum.text? = _
  rw [Queue.find?_stamped free]
  split
  · rfl
  split
  · rfl
  split
  · rfl
  · rfl

theorem createdAt_oneValue :
    Archive.createdAt now (oneValue free now event primitive).record = now := by
  have found : Record.instant? (oneValue free now event primitive).record Field.created =
      some now := by
    change (Table.find? "created" (Queue.stamped now event [(field, v)])).bind Datum.instant? = _
    rw [Queue.find?_stamped free, if_pos rfl]
    rfl
  rw [Archive.createdAt, found]
  rfl

/-- The record is accepted when it can be kept for as long as it has to be. -/
theorem accept?_oneValue (named : event ≠ "") (finite : v.hasNonFinite = false) (retention : Nat) :
    (now.shift? retention = none ∧
      Ledger.accept? retention now (oneValue free now event primitive) = none) ∨
    ∃ a : Acceptance, now.shift? retention = some a.expires ∧ a.created = now ∧
      a.source = oneValue free now event primitive ∧
      Ledger.accept? retention now (oneValue free now event primitive) = some a := by
  have isNamed : (((oneValue free now event primitive).record.text? Field.event).filter
      (!·.isEmpty)).isNone = false := by
    have text : (oneValue free now event primitive).record.text? Field.event = some event :=
      text?_oneValue free now primitive "event"
    rw [text]
    simp [Option.filter, named]
  have isFinite : (oneValue free now event primitive).record.hasNonFinite = false := by
    rw [Record.hasNonFinite, ← Bool.not_eq_true, Datum.hasNonFiniteEntry_iff]
    rintro ⟨name, u, member, x, inside, infinite⟩
    have scan := (Datum.hasNonFinite_iff u).mpr ⟨x, inside, infinite⟩
    rcases Queue.mem_stamped free now event v member with same | same | same
    · cases same
      simp [Datum.hasNonFinite] at scan
    · cases same
      simp [Datum.hasNonFinite] at scan
    · cases same
      rw [finite] at scan
      cases scan
  unfold Ledger.accept?
  rw [createdAt_oneValue]
  cases shifted : now.shift? retention with
  | none => exact .inl ⟨rfl, rfl⟩
  | some expires =>
    refine .inr ⟨⟨_, now, expires, isNamed, isFinite⟩, rfl, rfl, rfl, ?_⟩
    simp only [isNamed, isFinite, dite_true]

theorem write_oneValue (named : event ≠ "") (finite : v.hasNonFinite = false) (archive : Archive) :
    (archive.write now [(oneValue free now event primitive).record]).2 =
      if (now.shift? archive.retention).isSome then none else some ⟨1, 1⟩ := by
  have accepted : archive.accepted now [(oneValue free now event primitive).record] = _ :=
    archive.accepted_eq now [oneValue free now event primitive]
  rcases accept?_oneValue free now primitive named finite archive.retention with
    ⟨shifted, refused⟩ | ⟨a, shifted, -, -, kept⟩
  · rw [List.filterMap_cons_none refused, List.filterMap_nil, List.map_nil] at accepted
    rw [Archive.write, accepted, shifted]
    rfl
  · rw [List.filterMap_cons_some kept, List.filterMap_nil, List.map_singleton] at accepted
    rw [Archive.write, accepted, shifted]
    rfl

/-- What a search returns that finds a record of one text. -/
def recorded (now expires : Instant) (event field text : String) : Entry :=
  .single event (Table.ofPairs [("created", .instant now), ("event", .text event),
    ("expires", .instant expires), (field, .text text)])

namespace Acceptance

variable {a : Acceptance} (source : a.source = oneValue free now event primitive)
  (created : a.created = now)

include source in
theorem readable_oneValue : a.Readable := by
  have bound : Value.fieldsHeight a.document ≤ 1 := by
    rw [Value.fieldsHeight_le]
    intro entry member
    rcases Table.mem_insert member with rfl | member
    · exact Nat.le_refl 1
    rcases Table.mem_insert member with rfl | member
    · exact Nat.le_refl 1
    rw [source, Document.ofRecord, Value.ofEntries_eq] at member
    obtain ⟨⟨name, u⟩, inside, made⟩ := List.mem_filterMap.mp member
    obtain ⟨e, encoded, rfl⟩ := Option.map_eq_some_iff.mp made
    have flat : u.isPrimitive = true := by
      rcases Queue.mem_stamped free now event v inside with same | same | same
      · cases same
        rfl
      · cases same
        rfl
      · cases same
        exact primitive
    simp only [Value.ofNamed?] at encoded
    split at encoded
    · cases encoded
    · exact (Datum.height_of_primitive flat encoded).le
  exact (Nat.succ_le_succ bound).trans (by decide)

include source in
theorem find?_source (name : String) : Table.find? name a.source.record =
    if name = "created" then some (.instant now)
    else if name = "event" then some (.text event)
    else if name = field then some v
    else none := by
  rw [source]
  exact Queue.find?_stamped free now event v name

include source created in
/-- The filter of a value keeps the document of the record exactly when it has that value. -/
theorem admits_oneValue (regular : now.Regular) (text : String) {cutoff : Instant}
    (early : cutoff.seconds < now.seconds) :
    (Filter.ofValue field text cutoff).admits a.document.reread = true ↔ v.text? = some text := by
  have value : Table.find? field a.document.reread = (Value.ofDatum? v).map Value.reread := by
    rw [Document.find?_reread, a.find?_document, if_neg free.expires, if_neg free.created,
      find?_source free now primitive source, if_neg free.created, if_neg free.event, if_pos rfl,
      Option.bind_some, Value.ofNamed?, free.named]
    rfl
  have time : Table.find? "created" a.document.reread = some (.instant now) := by
    rw [Document.find?_reread, a.find?_document, created]
    exact congrArg (some ∘ Value.instant) (Instant.reread_eq_self.mpr regular)
  have young : Test.matches? (some (.instant now)) (.atLeast (.instant cutoff)) = true := by
    simp [Test.matches?, Test.onSide, Value.compare?, Instant.compare,
      Int.compare_eq_gt.mpr early]
  rw [Filter.admits_ofValue, value, time, young, Bool.and_true]
  cases v with
  | record entries => cases primitive
  | list items => cases primitive
  | _ => simp [Value.ofDatum?, Value.reread, Test.matches?, Test.isAmong, Test.anyElement,
      Value.looselyEquals, Value.same, Datum.text?]

include source created in
theorem entry_oneValue (regular : now.Regular) (kept : a.expires.Regular)
    (players : Option Players) {text : String} (same : v.text? = some text) :
    a.entry players = recorded now a.expires event field text := by
  have value := Datum.text?_eq_some.mp same
  have named : a.event = event := by
    have text := a.event_spec
    rw [source] at text
    exact (Option.some.inj ((text?_oneValue free now primitive "event").symm.trans text)).symm
  have nobody : a.source.record.text? Field.player = none := by
    rw [source]
    refine (text?_oneValue free now primitive "player").trans ?_
    simp [free.player.symm]
  have data : a.dated a.source.record.readBack =
      Table.ofPairs [("created", .instant now), ("event", .text event),
        ("expires", .instant a.expires), (field, .text text)] := by
    refine Table.ext_of_find? (((Record.ordered_readBack a.source.ordered).insert _ _).insert _ _)
      (Table.ordered_ofPairs _) ?_
    intro name
    simp only [dated, Table.ofPairs, List.foldl_cons, List.foldl_nil, Table.find?_insert]
    rw [Record.find?_readBack a.source.ordered, find?_source free now primitive source, created,
      value, Instant.reread_eq_self.mpr regular, Instant.reread_eq_self.mpr kept]
    by_cases expiry : name = "expires"
    · simp [expiry, free.expires.symm]
    by_cases creation : name = "created"
    · simp [creation, free.created.symm]
    by_cases kind : name = "event"
    · subst kind
      simp [free.event.symm, Value.ofNamed?, Value.ofDatum?, Value.reread, Datum.ofValue?]
    by_cases own : name = field
    · subst own
      simp [expiry, creation, kind, free.named, Value.ofNamed?, Value.ofDatum?, Value.reread,
        Datum.ofValue?]
    · simp [expiry, creation, kind, own, Table.find?]
  rw [entry, completed, nobody, named, data]
  rfl

end Acceptance

/-- What a search for a text returns of a record with one value. -/
def returned (now : Instant) (retention : Nat) (event field : String) (v : Datum) (text : String) :
    List Entry :=
  if v.text? = some text then
    ((now.shift? retention).map fun expires => recorded now expires event field text).toList
  else []

variable (event) in
/-- An archive to which only the record was given. -/
def archived (retention : Nat) (players : Option Players) : Archive :=
  .run retention players [.write now [oneValue free now event primitive]]

/-- A scan from an earlier time on finds the record unless it could not be kept. -/
theorem scan_archived (named : event ≠ "") (finite : v.hasNonFinite = false) {retention : Nat}
    (long : 1 < retention) (players : Option Players) {since : Int} (late : since ≤ now.micros) :
    (now.shift? retention = none ∧
      (archived free now event primitive retention players).store.scanSince since
        now.micros = []) ∨
    ∃ a : Acceptance, now.shift? retention = some a.expires ∧ a.created = now ∧
      a.source = oneValue free now event primitive ∧
      (archived free now event primitive retention players).store.scanSince since
        now.micros = [a.document.reread] := by
  have follows := (Archive.run_follows retention players
    [.write now [oneValue free now event primitive]]).1
  have scan := follows.scanSince_perm since now.micros
  have ledger : Ledger.run retention [.write now [oneValue free now event primitive]] =
      [oneValue free now event primitive].filterMap (Ledger.accept? retention now) := rfl
  rw [ledger] at scan
  rcases accept?_oneValue free now primitive named finite retention with
    ⟨shifted, refused⟩ | ⟨a, shifted, created, source, accepted⟩
  · rw [List.filterMap_cons_none refused] at scan
    exact .inl ⟨shifted, List.perm_nil.mp scan⟩
  · have young : Store.keyTime since ≤ Store.keyTime a.created.micros := by
      rw [created]
      exact Int.toNat_le_toNat late
    have found : a.scanned? now.micros = some a.document.reread :=
      if_pos ⟨Instant.micros_shift long shifted, a.readable_oneValue free now primitive source⟩
    rw [List.filterMap_cons_some accepted, List.filterMap_nil,
      List.filter_cons_of_pos (by simpa using young), List.filter_nil,
      List.filterMap_cons_some found, List.filterMap_nil] at scan
    exact .inr ⟨a, shifted, created, source, List.perm_singleton.mp scan⟩

/-- A search for a text at the time at which the record was queued and written. -/
theorem query_archived (regular : now.Regular) (named : event ≠ "") (finite : v.hasNonFinite = false) {retention : Nat}
    (long : 1 < retention) (players : Option Players) {cutoff : Instant}
    (early : cutoff.seconds < now.seconds) (ordinary : cutoff.nanos < 1000000000) (zone : Zone)
    (text : String) (field_ne : (Path.of field).segments ≠ []) {limit : Nat} (room : 1 ≤ limit) :
    (archived free now event primitive retention players).query now
        { Search.ungrouped zone with
          query := ⟨[.equalsText (.of field) text field_ne,
            .since Field.created cutoff Field.created_ne], limit⟩ } =
      .ok (returned now retention event field v text) := by
  have late : cutoff.micros ≤ now.micros := by
    unfold Instant.micros
    omega
  rw [Archive.query_eq _ now (Pipeline.ofSession_value text cutoff zone limit), Archive.found,
    Pipeline.since_ofValue free.created]
  rcases scan_archived free now primitive named finite long players late with
    ⟨shifted, scan⟩ | ⟨a, shifted, created, source, scan⟩
  · have nothing : returned now retention event field v text = [] := by
      rw [returned, shifted, Option.map_none, Option.toList_none, ite_self]
    rw [scan, Pipeline.rows_ofValue _ _ _ room (by simp), nothing]
    rfl
  · rw [scan, Pipeline.rows_ofValue _ _ _ room (by simp), List.filter_singleton]
    have admits := a.admits_oneValue free now primitive source created regular text early
    have kept : a.expires.Regular := .inl (Instant.shift?_spec (by omega) shifted).1
    by_cases same : v.text? = some text
    · have shown := a.shown_reread (archived free now event primitive retention players) zone
      have known := (Archive.run_follows retention players
        [.write now [oneValue free now event primitive]]).2.2
      rw [archived, known, a.entry_oneValue free now primitive source created regular kept players
        same] at shown
      have shows : [Row.single a.document.reread].mapM
          ((archived free now event primitive retention players).shown zone) =
          .ok [recorded now a.expires event field text] := by
        rw [List.mapM_cons, archived, shown]
        rfl
      rw [admits.mpr same, returned, if_pos same, shifted]
      exact shows
    · rw [Bool.eq_false_iff.mpr fun kept => same (admits.mp kept), returned, if_neg same]
      rfl

end OneValue
end AuditLog
