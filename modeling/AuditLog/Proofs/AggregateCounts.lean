import AuditLog.Proofs.GroupPartition
import AuditLog.Proofs.GroupedDays

/-! Aggregates agree with the single records that they stand for. The day of an aggregate is that
of every record counted in it, and where the limit cuts nothing the counts add up to the rows of
the same search for single records. -/
namespace AuditLog

theorem Instant.of?_some {seconds : Int} {nanos : Nat} {t : Instant}
    (made : Instant.of? seconds nanos = some t) : t.seconds = seconds ∧ t.nanos = nanos := by
  unfold of? at made
  split at made
  next =>
    split at made
    next =>
      split at made
      next => cases made; exact ⟨rfl, rfl⟩
      next => cases made
    next => cases made
  next => cases made

theorem LocalDay.of?_some {date : Date} {zone : Zone} {day : LocalDay}
    (made : of? date zone = some day) :
    day = ⟨date, zone⟩ ∧ ∃ midnight, Instant.of? day.start 0 = some midnight := by
  unfold of? at made
  simp only at made
  split at made
  next valid =>
    cases made
    rw [Bool.and_eq_true] at valid
    exact ⟨rfl, Option.isSome_iff_exists.mp valid.2⟩
  next => cases made

/-- The instants of a day are those from its midnight on for 24 hours. -/
theorem Zone.dateOf_bounds {zone : Zone} {date : Date} {t : Instant} (day : zone.dateOf t = date) :
    LocalDay.start ⟨date, zone⟩ ≤ t.seconds ∧ t.seconds < LocalDay.start ⟨date, zone⟩ + 86400 := by
  have days : date.toDays = (t.seconds + zone.offset) / 86400 := by
    rw [← day, dateOf, Date.toDays_ofDays]
  simp only [LocalDay.start, days]
  omega

namespace Entry

/-- How many records the entry stands for. -/
def counted : Entry → Nat
  | .single _ _ => 1
  | .aggregate _ _ _ count => count

end Entry

namespace Group

variable {zone : Zone} {ds : List Document} {g : Group}

theorem date_of_counts (made : g ∈ ofDocuments zone ds) {d : Document}
    (counted : g.counts zone d = true) :
    ∃ t, Document.instant? d "created" = some t ∧ zone.dateOf t = g.date := by
  obtain ⟨first, -, common, u, time, date⟩ := ofDocuments_begins zone ds g made
  rw [counts, hasKey_iff, keyOf?, Option.map_eq_some_iff] at counted
  obtain ⟨t, created, same⟩ := counted
  have key : g.key = (ofMember zone first u).key := by
    rw [key, Group.key, id, id, common, date]
    rfl
  exact ⟨t, created, (eq_of_key (same.trans key)).1.trans date.symm⟩

theorem count_pos (made : g ∈ ofDocuments zone ds) : 1 ≤ g.count := by
  have sums := (partition_ofDocuments zone ds).sums g made
  obtain ⟨d, member, counted, -⟩ := sums.attained
  rw [sums.count]
  exact List.countP_pos_iff.mpr ⟨d, member, counted⟩

theorem length_ofDocuments_le (zone : Zone) (ds : List Document) :
    (ofDocuments zone ds).length ≤ ((ofDocuments zone ds).map count).sum := by
  have each := List.card_nsmul_le_sum ((ofDocuments zone ds).map count) 1 (by
    intro n member
    obtain ⟨g, made, rfl⟩ := List.mem_map.mp member
    exact count_pos made)
  simpa using each

/-- The entry is the aggregate of a group: of as many documents as are counted, all created within
the 24 hours from its midnight on. -/
structure Shown (zone : Zone) (ds : List Document) (g : Group) (entry : Entry) : Prop where
  count : g.count = ds.countP (g.counts zone) ∧ 1 ≤ g.count
  entry : ∃ event data, entry = .aggregate event data ⟨g.date, zone⟩ g.count ∧
    Record.get? data Field.count = some (.int (Int64.ofNat g.count)) ∧
    (g.count < 2 ^ 63 → (Int64.ofNat g.count).toInt = g.count)
  midnight : ∃ midnight, Instant.of? (LocalDay.start ⟨g.date, zone⟩) 0 = some midnight ∧
    (midnight.seconds + zone.offset) % 86400 = 0 ∧ zone.dateOf midnight = g.date
  within : ∀ d ∈ ds, g.counts zone d = true → ∃ t, Document.instant? d "created" = some t ∧
    LocalDay.start ⟨g.date, zone⟩ ≤ t.seconds ∧
    t.seconds < LocalDay.start ⟨g.date, zone⟩ + 86400

end Group

namespace Archive

theorem get?_count_set (r : Record) (v : Datum) :
    Record.get? (Record.set r Field.count v) Field.count = some v := by
  change Table.find? "count" (Table.insert "count" v r) = some v
  rw [Table.find?_insert, if_pos rfl]

theorem count_withPlayerName (players : Option Players) (event : String) (data : Record)
    (day : LocalDay) (n : Nat) :
    ∃ completed, withPlayerName players (.aggregate event data day n) =
        .aggregate event completed day n ∧
      Record.get? completed Field.count = Record.get? data Field.count := by
  simp only [withPlayerName, Entry.data]
  cases Record.text? data Field.player with
  | none => exact ⟨data, rfl, rfl⟩
  | some raw =>
    refine ⟨_, rfl, ?_⟩
    change Table.find? "count" (Table.insert "cause" _ data) = Table.find? "count" data
    rw [Table.find?_insert, if_neg (by decide)]

theorem shown_group {archive : Archive} {zone : Zone} {g : Group} {entry : Entry}
    (shown : archive.shown zone (.group g) = .ok entry) :
    (∃ midnight, Instant.of? (LocalDay.start ⟨g.date, zone⟩) 0 = some midnight) ∧
      ∃ event data, entry = .aggregate event data ⟨g.date, zone⟩ g.count ∧
        Record.get? data Field.count = some (.int (Int64.ofNat g.count)) ∧
        (g.count < 2 ^ 63 → (Int64.ofNat g.count).toInt = g.count) := by
  simp only [Archive.shown, entryOf] at shown
  cases made : LocalDay.of? g.date zone with
  | none =>
    rw [made] at shown
    cases shown
  | some day =>
    obtain ⟨rfl, midnight⟩ := LocalDay.of?_some made
    refine ⟨midnight, ?_⟩
    rw [made] at shown
    cases named : Record.text? (Record.set (Record.ofDocument g.common) Field.count
        (.int (Int64.ofNat g.count))) Field.event with
    | none =>
      simp only [named] at shown
      cases shown
    | some event =>
      simp only [named] at shown
      cases shown
      obtain ⟨data, completed, kept⟩ := count_withPlayerName archive.players event
        (Record.set (Record.ofDocument g.common) Field.count (.int (Int64.ofNat g.count)))
        ⟨g.date, zone⟩ g.count
      exact ⟨event, data, completed, kept.trans (get?_count_set _ _), Int64.toInt_ofNat_of_lt⟩

theorem shows {archive : Archive} {zone : Zone} {ds : List Document} {g : Group} {entry : Entry}
    (made : g ∈ Group.ofDocuments zone ds) (shown : archive.shown zone (.group g) = .ok entry) :
    g.Shown zone ds entry := by
  obtain ⟨⟨midnight, begins⟩, aggregate⟩ := shown_group shown
  have start : midnight.seconds + zone.offset = g.date.toDays * 86400 := by
    rw [(Instant.of?_some begins).1]
    exact Int.sub_add_cancel _ _
  obtain ⟨first, -, -, t, -, date⟩ := Group.ofDocuments_begins zone ds g made
  have days : g.date.toDays = (t.seconds + zone.offset) / 86400 := by
    rw [date, Zone.dateOf, Date.toDays_ofDays]
  have sums := (Group.partition_ofDocuments zone ds).sums g made
  refine ⟨⟨sums.count, Group.count_pos made⟩, aggregate, ⟨midnight, begins, ?_, ?_⟩, ?_⟩
  · omega
  · have same : (midnight.seconds + zone.offset) / 86400 = (t.seconds + zone.offset) / 86400 := by
      omega
    rw [Zone.dateOf, same, date, Zone.dateOf]
  · intro d _ counted
    obtain ⟨u, created, day⟩ := Group.date_of_counts made counted
    exact ⟨u, created, Zone.dateOf_bounds day⟩

/-- The documents of which a query makes its rows. -/
def matching (archive : Archive) (now : Instant) (p : Pipeline) : List Document :=
  (archive.store.scanSince p.since now.micros).filter fun d => p.filter.admits d

/-- The rows are groups, all of them where the limit cuts none. -/
theorem found_grouped (archive : Archive) (now : Instant) {p : Pipeline} {zone : Zone}
    (grouped : p.grouping = some zone) :
    ∃ groups : List Group, archive.found now p = groups.map Row.group ∧
      (∀ g ∈ groups, g ∈ Group.ofDocuments zone (archive.matching now p)) ∧
      ((Group.ofDocuments zone (archive.matching now p)).length ≤ p.limit →
        groups.Perm (Group.ofDocuments zone (archive.matching now p))) := by
  let sorted := (Group.ofDocuments zone (archive.matching now p)).mergeSort fun g h =>
    (Pipeline.compareCreated p.order (some g.latest) (some h.latest)).isLE
  have perm : sorted.Perm (Group.ofDocuments zone (archive.matching now p)) :=
    List.mergeSort_perm _ _
  refine ⟨sorted.take p.limit, ?_, ?_, ?_⟩
  · have rows : archive.found now p = (Pipeline.sortRows p.order
        ((Group.ofDocuments zone (archive.matching now p)).map Row.group)).take p.limit := by
      rw [found, Pipeline.rows, grouped]
      rfl
    rw [rows, Pipeline.sortRows, List.map_take]
    congr 1
    apply Eq.symm
    apply List.map_mergeSort
    intro g _ h _
    rfl
  · intro g member
    exact perm.mem_iff.mp (List.mem_of_mem_take member)
  · intro enough
    rw [List.take_of_length_le (perm.length_eq.trans_le enough)]
    exact perm

theorem mem_matching (retention : Nat) (players : Option Players) (steps : List Step)
    (now : Instant) (p : Pipeline) :
    ∀ d ∈ (run retention players steps).matching now p,
      ∃ a ∈ live retention steps now, d = a.document.reread := by
  intro d member
  obtain ⟨a, alive, -, same, -⟩ := mem_scanSince_live (List.mem_filter.mp member).1
  exact ⟨a, alive, same⟩

theorem ofSession_of_query {archive : Archive} {now : Instant} {session : Session}
    {entries : List Entry} (result : archive.query now session = .ok entries) :
    ∃ p, Pipeline.ofSession session = .ok p := by
  unfold query at result
  cases made : Pipeline.ofSession session with
  | error e =>
    rw [made] at result
    cases result
  | ok p => exact ⟨p, rfl⟩

theorem ofSession_single {session : Session} {p : Pipeline}
    (made : Pipeline.ofSession session = .ok p) :
    Pipeline.ofSession (session.turnOn .noGroup) = .ok { p with grouping := none } := by
  obtain ⟨asked, translated, rfl⟩ := Pipeline.eq_pipeline made
  have single : (session.turnOn .noGroup).has .noGroup = true := by
    rw [session.has_turnOn]
    simp
  have chat : (session.turnOn .noGroup).has .noChat = session.has .noChat := by
    rw [session.has_turnOn]
    simp
  have conditions : (session.turnOn .noGroup).query = session.query := by
    rw [session.turnOn_eq]
  have order : (session.turnOn .noGroup).order = session.order := by
    rw [session.turnOn_eq]
  rw [← conditions] at translated
  rw [Pipeline.ofSession_ok translated]
  simp only [Session.pipeline, single, chat, conditions, order, if_true]

/-- The same search for single records always succeeds. -/
theorem query_single (retention : Nat) (players : Option Players) (steps : List Step)
    (now : Instant) {session : Session} {p : Pipeline}
    (made : Pipeline.ofSession session = .ok p) :
    ∃ entries, (run retention players steps).query now (session.turnOn .noGroup) = .ok entries ∧
      entries.length = min p.limit ((run retention players steps).matching now p).length := by
  have single := ofSession_single made
  have shown : ∀ row ∈ (run retention players steps).found now { p with grouping := none },
      ∃ entry, (run retention players steps).shown (session.turnOn .noGroup).zone row =
        .ok entry := by
    intro row member
    obtain ⟨a, -, rfl⟩ := single_row rfl member
    exact ⟨_, a.shown_reread _ _⟩
  obtain ⟨entries, result⟩ := (mapM_ok_iff _ _).mpr shown
  refine ⟨entries, (query_eq _ now single).trans result, ?_⟩
  rw [← (forall₂_of_mapM result).length_eq, found, length_rows_single rfl]
  rfl

/-- Each aggregate of a grouped search shows its group, and where the limit is at least the number
of matches, the counts add up to the entries of the same search for single records. -/
theorem aggregates_agree (retention : Nat) (players : Option Players) (steps : List Step)
    (now : Instant) (session : Session) (entries : List Entry)
    (grouped : session.has .noGroup = false)
    (result : (run retention players steps).query now session = .ok entries) :
    ∃ p groups, Pipeline.ofSession session = .ok p ∧
      (run retention players steps).found now p = groups.map Row.group ∧
      (∀ d ∈ (run retention players steps).matching now p,
        ∃ a ∈ live retention steps now, d = a.document.reread) ∧
      List.Forall₂ (Group.Shown session.zone ((run retention players steps).matching now p))
        groups entries ∧
      (((run retention players steps).matching now p).length ≤ session.query.limit →
        ∃ singles, (run retention players steps).query now (session.turnOn .noGroup) =
            .ok singles ∧
          (entries.map Entry.counted).sum = singles.length) := by
  obtain ⟨p, made⟩ := ofSession_of_query result
  have zone : p.grouping = some session.zone := by
    rw [grouping_ofSession made, grouped]
    rfl
  have limit : p.limit = session.query.limit := by
    obtain ⟨asked, -, rfl⟩ := Pipeline.eq_pipeline made
    rfl
  obtain ⟨groups, rows, known, all⟩ := found_grouped (run retention players steps) now zone
  rw [query_eq _ now made, rows] at result
  have shown := List.forall₂_map_left_iff.mp (forall₂_of_mapM result)
  have counts : entries.map Entry.counted = groups.map Group.count := by
    clear rows known all result
    induction shown with
    | nil => rfl
    | cons head _ ih =>
      obtain ⟨-, event, data, rfl, -⟩ := shown_group head
      rw [List.map_cons, List.map_cons, ih, Entry.counted]
  have records := mem_matching retention players steps now p
  refine ⟨p, groups, made, rows, records, ?_, ?_⟩
  · apply ((List.forall₂_and_left _ _).mpr ⟨known, shown⟩).imp
    rintro g entry ⟨made, shown⟩
    exact shows made shown
  · intro enough
    obtain ⟨singles, result', length⟩ := query_single retention players steps now made
    have dated : ∀ d ∈ (run retention players steps).matching now p,
        (Document.instant? d "created").isSome := by
      intro d member
      obtain ⟨a, -, rfl⟩ := records d member
      rw [a.created_reread]
      rfl
    have sum := Group.sum_count session.zone dated
    have few := (Group.length_ofDocuments_le session.zone _).trans_eq sum
    refine ⟨singles, result', ?_⟩
    rw [counts, ((all (by omega)).map Group.count).sum_eq, sum, length]
    omega

theorem two_breaks_counted : everyDay.has .noGroup = false ∧
    ∃ entries singles,
      (run 3600 none [.write noon [flat, flat]]).query noon everyDay = .ok entries ∧
      (run 3600 none [.write noon [flat, flat]]).query noon (everyDay.turnOn .noGroup) =
        .ok singles ∧
      (entries.map Entry.counted).sum = singles.length := by
  have translated : Pipeline.ofSession everyDay =
      .ok ⟨Filter.everything, some .utc, .descending, 2500⟩ := rfl
  have shown : ∀ row ∈ (run 3600 none [.write noon [flat, flat]]).found noon
      ⟨Filter.everything, some .utc, .descending, 2500⟩,
      ∃ entry, (run 3600 none [.write noon [flat, flat]]).shown .utc row = .ok entry := by
    intro row member
    obtain ⟨g, rfl, a, alive, begins⟩ := group_row rfl member
    have created : ∀ a ∈ live 3600 [.write noon [flat, flat]] noon, a.created = noon := by
      decide +kernel
    apply (shown_group_iff _ begins).2.mpr
    rw [created a alive]
    exact Zone.hasMidnight_inside _ (by decide) (by decide)
  obtain ⟨entries, result⟩ := (mapM_ok_iff _ _).mpr shown
  have asked := (query_eq _ noon translated).trans result
  obtain ⟨p, groups, made, -, -, -, sum⟩ :=
    aggregates_agree 3600 none [.write noon [flat, flat]] noon everyDay entries rfl asked
  have enough : (run 3600 none [.write noon [flat, flat]]).store.size ≤ everyDay.query.limit := by
    decide +kernel
  obtain ⟨singles, result', total⟩ := sum ((List.length_filter_le _ _).trans
    ((List.length_filterMap_le _ _).trans ((List.length_filter_le _ _).trans enough)))
  exact ⟨rfl, entries, singles, asked, result', total⟩

end Archive
end AuditLog
