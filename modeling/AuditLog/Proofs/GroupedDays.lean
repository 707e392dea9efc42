import AuditLog.Proofs.AcceptedRecords

/-! When a query succeeds. Every row names its event, so the one thing that can fail is a group
whose day begins outside the representable instants; that is decided by the time of creation of
its first member, near the two ends of time only. -/
namespace AuditLog

/-- The midnight before `t` in the zone is representable, and so is the day after UTC. -/
def Zone.HasMidnight (zone : Zone) (t : Instant) : Prop :=
  (if 0 < zone.offset then -8334601228800 + 86400 else -8334601228800) ≤ t.seconds + zone.offset ∧
    t.seconds + zone.offset ≤ 8210266876799

instance (zone : Zone) (t : Instant) : Decidable (zone.HasMidnight t) :=
  inferInstanceAs (Decidable (_ ∧ _))

theorem LocalDay.of?_dateOf (zone : Zone) (t : Instant) :
    (LocalDay.of? (zone.dateOf t) zone).isSome ↔ zone.HasMidnight t := by
  have years : (-262143 ≤ (zone.dateOf t).year ↔ Date.firstDay ≤ (t.seconds + zone.offset) / 86400) ∧
      ((zone.dateOf t).year ≤ 262142 ↔ (t.seconds + zone.offset) / 86400 ≤ Date.lastDay) :=
    Date.year_ofDays _
  have west := zone.west
  have east := zone.east
  unfold Date.firstDay Date.lastDay at years
  have start : LocalDay.start ⟨zone.dateOf t, zone⟩ =
      (t.seconds + zone.offset) / 86400 * 86400 - zone.offset := by
    rw [LocalDay.start, Zone.dateOf, Date.toDays_ofDays]
  have midnight (s : Int) : (Instant.of? s 0).isSome ↔ -8334601228800 ≤ s ∧ s ≤ 8210266876799 := by
    unfold Instant.of?
    split
    next first =>
      split
      next last => simp [first, last]
      next => simp; omega
    next => simp; omega
  have valid : (zone.dateOf t).isValid = true := Date.isValid_ofDays _
  have decided : ((zone.dateOf t).isValid && -262143 ≤ (zone.dateOf t).year &&
      (zone.dateOf t).year ≤ 262142 &&
      (Instant.of? (LocalDay.start ⟨zone.dateOf t, zone⟩) 0).isSome) = true ↔
        zone.HasMidnight t := by
    simp only [Bool.and_eq_true, decide_eq_true_eq, valid, true_and, midnight, start, years,
      Zone.HasMidnight]
    split <;> omega
  rw [← decided, LocalDay.of?]
  split
  next accepted => simpa using accepted
  next rejected => simpa using rejected

theorem Zone.hasMidnight_inside (zone : Zone) {t : Instant}
    (first : -8334601228800 + 2 * 86400 ≤ t.seconds) (last : t.seconds + 86400 ≤ 8210266876799) :
    zone.HasMidnight t := by
  have west := zone.west
  have east := zone.east
  unfold HasMidnight
  split <;> omega

namespace Group

def Begins (zone : Zone) (g : Group) (d : Document) : Prop :=
  g.common = commonOf d ∧
    ∃ t, Document.instant? d "created" = some t ∧ g.date = zone.dateOf t

theorem mem_join {member g : Group} {groups : List Group} (joined : g ∈ join member groups) :
    (∃ old ∈ groups, g.common = old.common ∧ g.date = old.date) ∨ g = member := by
  induction groups with
  | nil => exact .inr (List.mem_singleton.mp joined)
  | cons first rest ih =>
    simp only [join] at joined
    split at joined
    next =>
      rcases List.mem_cons.mp joined with rfl | later
      · exact .inl ⟨first, by simp, rfl, rfl⟩
      · exact .inl ⟨g, by simp [later], rfl, rfl⟩
    next =>
      rcases List.mem_cons.mp joined with rfl | later
      · exact .inl ⟨g, by simp, rfl, rfl⟩
      · rcases ih later with ⟨old, known, same⟩ | new
        · exact .inl ⟨old, by simp [known], same⟩
        · exact .inr new

theorem ofDocuments_begins (zone : Zone) (ds : List Document) :
    ∀ g ∈ ofDocuments zone ds, ∃ d ∈ ds, Begins zone g d := by
  induction ds using List.reverseRecOn with
  | nil =>
    intro g member
    cases member
  | append_singleton ds d ih =>
    have old : ∀ g ∈ ofDocuments zone ds, ∃ e ∈ ds ++ [d], Begins zone g e := by
      intro g member
      obtain ⟨e, known, begins⟩ := ih g member
      exact ⟨e, by simp [known], begins⟩
    intro g member
    rw [ofDocuments, List.foldl_append, ← ofDocuments] at member
    simp only [List.foldl_cons, List.foldl_nil] at member
    split at member
    next created time =>
      rcases mem_join member with ⟨first, known, common, date⟩ | new
      · obtain ⟨e, within, begins⟩ := old first known
        obtain ⟨same, t, time, day⟩ := begins
        exact ⟨e, within, common.trans same, t, time, date.trans day⟩
      · exact ⟨d, by simp, new ▸ ⟨rfl, created, time, rfl⟩⟩
    next => exact old g member

theorem event_commonOf (d : Document) :
    Table.find? "event" (commonOf d) = some ((Table.find? "event" d).getD .null) := by
  simp [commonOf, commonFields, Table.ofPairs, Table.find?_insert]

theorem shown_iff (archive : Archive) {zone : Zone} {g : Group} {d : Document} {event : String}
    (begins : Begins zone g d) (named : Table.find? "event" d = some (.text event)) :
    (∃ entry, archive.shown zone (.group g) = .ok entry) ↔ (LocalDay.of? g.date zone).isSome := by
  have ordered : Table.Ordered (commonOf d) := Table.ordered_ofPairs _
  have common : Table.find? "event" (Record.ofDocument g.common) = some (.text event) := by
    rw [begins.1, Record.find?_ofDocument ordered, event_commonOf, named]
    rfl
  have kept (count : Datum) :
      Record.text? (Record.set (Record.ofDocument g.common) Field.count count) Field.event =
        some event := by
    change (Table.find? "event" (Table.insert "count" count (Record.ofDocument g.common))).bind
      Datum.text? = some event
    rw [Table.find?_insert, if_neg (by decide), common]
    rfl
  simp only [Archive.shown, Archive.entryOf]
  cases LocalDay.of? g.date zone with
  | none => simp [bind, Except.bind]
  | some day => simp [kept, bind, Except.bind, pure, Except.pure]

end Group

theorem Acceptance.event_reread (a : Acceptance) :
    Table.find? "event" a.document.reread = some (.text a.event) := by
  have named : (Table.find? "event" a.source.record).bind Datum.text? = some a.event := a.event_spec
  rw [Document.find?_reread, a.find?_document, if_neg (by decide), if_neg (by decide)]
  obtain ⟨v, found, text⟩ := Option.bind_eq_some_iff.mp named
  rw [found]
  cases v with
  | text s => cases text; rfl
  | _ => cases text

namespace Archive

theorem grouping_ofSession {session : Session} {p : Pipeline}
    (translated : Pipeline.ofSession session = .ok p) :
    p.grouping = if session.has .noGroup then none else some session.zone := by
  unfold Pipeline.ofSession at translated
  cases asked : Filter.ofConditions session.query.conditions with
  | error e => rw [asked] at translated; cases translated
  | ok f => rw [asked] at translated; cases translated; rfl

theorem single_row {retention : Nat} {players : Option Players} {steps : List Step} {now : Instant}
    {p : Pipeline} (ungrouped : p.grouping = none) {row : Row}
    (member : row ∈ (run retention players steps).found now p) :
    ∃ a ∈ live retention steps now, row = .single a.document.reread := by
  obtain ⟨d, scanned, -, rfl⟩ := Pipeline.mem_rows_single ungrouped member
  obtain ⟨a, alive, -, rfl, -⟩ := mem_scanSince_live scanned
  exact ⟨a, alive, rfl⟩

theorem group_row {retention : Nat} {players : Option Players} {steps : List Step} {now : Instant}
    {p : Pipeline} {zone : Zone} (grouped : p.grouping = some zone) {row : Row}
    (member : row ∈ (run retention players steps).found now p) :
    ∃ g, row = .group g ∧ ∃ a ∈ live retention steps now, g.Begins zone a.document.reread := by
  obtain ⟨g, made, rfl⟩ := Pipeline.mem_rows_group grouped member
  obtain ⟨d, matching, begins⟩ := Group.ofDocuments_begins zone _ g made
  obtain ⟨a, alive, -, rfl, -⟩ := mem_scanSince_live (List.mem_filter.mp matching).1
  exact ⟨g, rfl, a, alive, begins⟩

theorem shown_group_iff (archive : Archive) {zone : Zone} {g : Group} {a : Acceptance}
    (begins : g.Begins zone a.document.reread) :
    g.date = zone.dateOf a.created.reread ∧
      ((∃ entry, archive.shown zone (.group g) = .ok entry) ↔
        zone.HasMidnight a.created.reread) := by
  obtain ⟨t, time, date⟩ := begins.2
  rw [a.created_reread] at time
  cases time
  refine ⟨date, ?_⟩
  rw [Group.shown_iff archive begins a.event_reread, date, LocalDay.of?_dateOf]

/-- A query succeeds exactly when each group that it returns has a midnight, as its first member
has it by its time as it is read; a query for single records always does. So does any query in whose
zone all live acceptances have a midnight. -/
theorem query_ok_iff_midnights (retention : Nat) (players : Option Players) (steps : List Step)
    (now : Instant) (session : Session) (p : Pipeline)
    (translated : Pipeline.ofSession session = .ok p) :
    ((∃ entries, (run retention players steps).query now session = .ok entries) ↔
      session.has .noGroup = true ∨
        ∀ g, Row.group g ∈ (run retention players steps).found now p →
          ∃ a ∈ live retention steps now, g.date = session.zone.dateOf a.created.reread ∧
            session.zone.HasMidnight a.created.reread) ∧
    ((∀ a ∈ live retention steps now, session.zone.HasMidnight a.created.reread) →
      ∃ entries, (run retention players steps).query now session = .ok entries) := by
  have grouping := grouping_ofSession translated
  rw [query_eq _ now translated, mapM_ok_iff]
  cases single : session.has .noGroup with
  | true =>
    rw [single, if_pos rfl] at grouping
    have shown : ∀ row ∈ (run retention players steps).found now p,
        ∃ entry, (run retention players steps).shown session.zone row = .ok entry := by
      intro row member
      obtain ⟨a, -, rfl⟩ := single_row grouping member
      exact ⟨_, a.shown_reread _ _⟩
    refine ⟨⟨?_, ?_⟩, ?_⟩
    · intro _
      exact .inl rfl
    · intro _
      exact shown
    · intro _
      exact shown
  | false =>
    rw [single, if_neg Bool.false_ne_true] at grouping
    refine ⟨⟨?_, ?_⟩, ?_⟩
    · intro shown
      apply Or.inr
      intro g member
      obtain ⟨_, same, a, alive, begins⟩ := group_row grouping member
      cases same
      obtain ⟨date, midnight⟩ := shown_group_iff (run retention players steps) begins
      exact ⟨a, alive, date, midnight.1 (shown _ member)⟩
    · intro either row member
      have midnights := either.resolve_left Bool.false_ne_true
      obtain ⟨g, rfl, a, alive, begins⟩ := group_row grouping member
      obtain ⟨date, shown⟩ := shown_group_iff (run retention players steps) begins
      obtain ⟨b, -, date', midnight⟩ := midnights g member
      rw [← LocalDay.of?_dateOf, ← date', date, LocalDay.of?_dateOf] at midnight
      exact shown.2 midnight
    · intro midnights row member
      obtain ⟨g, rfl, a, alive, begins⟩ := group_row grouping member
      exact (shown_group_iff (run retention players steps) begins).2.mpr (midnights a alive)

def everyDay : Session := Session.start .console .utc

theorem flat_record_grouped : Pipeline.ofSession everyDay =
      .ok ⟨Filter.everything, some .utc, .descending, 2500⟩ ∧
    ∃ entries, (run 3600 none [.write noon [flat]]).query noon everyDay = .ok entries := by
  have translated : Pipeline.ofSession everyDay =
      .ok ⟨Filter.everything, some .utc, .descending, 2500⟩ := rfl
  refine ⟨translated, ?_⟩
  apply (query_ok_iff_midnights 3600 none [.write noon [flat]] noon everyDay _ translated).2
  intro a alive
  have created : ∀ a ∈ live 3600 [.write noon [flat]] noon, a.created.reread = noon := by
    decide +kernel
  rw [created a alive]
  exact Zone.hasMidnight_inside _ (by decide) (by decide)

/-- The last second but one. -/
def late : Instant := .whole 8210266876798 (by decide) (by decide)

def latest : OrderedRecord :=
  ⟨[("created", .instant late), ("event", .text "break")], by decide, ⟨trivial, trivial, trivial⟩⟩

def hourEast : Zone := ⟨3600, by decide, by decide⟩

/-- An hour east of UTC, the last representable seconds are of a year that is not representable. -/
theorem latest_record_fails :
    (run 1 none [.write noon [latest]]).query noon (Session.start .console hourEast) =
      .error (.bucketDate ⟨262143, 1, 1⟩) := by
  have one : ((live 1 [.write noon [latest]] noon).filter fun a => a.Readable).length = 1 := by
    decide +kernel
  have times : ∀ a ∈ (live 1 [.write noon [latest]] noon).filter fun a => a.Readable,
      a.created.reread = late := by decide +kernel
  have scanned := scan_perm_live 1 none [.write noon [latest]] noon
  obtain ⟨a, only⟩ := List.length_eq_one_iff.mp one
  rw [only, List.map_singleton, List.perm_singleton] at scanned
  have created := a.created_reread
  rw [times a (by simp [only])] at created
  have found : (run 1 none [.write noon [latest]]).found noon
      ⟨Filter.everything, some hourEast, .descending, 2500⟩ =
        [.group (Group.ofMember hourEast a.document.reread late)] := by
    have every := Filter.admits_everything a.document.reread
    change Pipeline.rows _ ((run 1 none [.write noon [latest]]).store.scan noon.micros) = _
    rw [scanned]
    simp [Pipeline.rows, every, Group.ofDocuments, created, Group.join, Pipeline.sortRows]
  have date : hourEast.dateOf late = ⟨262143, 1, 1⟩ := by decide +kernel
  have missing : LocalDay.of? ⟨262143, 1, 1⟩ hourEast = none := by decide +kernel
  have fails : (run 1 none [.write noon [latest]]).shown hourEast
      (.group (Group.ofMember hourEast a.document.reread late)) =
        .error (.bucketDate ⟨262143, 1, 1⟩) := by
    simp only [shown, entryOf, Group.ofMember, date, missing]
    rfl
  rw [query_eq _ noon (p := ⟨Filter.everything, some hourEast, .descending, 2500⟩) rfl, found,
    List.mapM_cons]
  change (run 1 none [.write noon [latest]]).shown hourEast _ >>= _ = _
  rw [fails]
  rfl

end Archive

end AuditLog
