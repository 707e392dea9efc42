import AuditLog.Proofs.QueryRows

/-! What becomes of accepted records. A query for all single records returns one entry for each
acceptance that is live and readable; an accepted record nested deeper than the reader goes is
returned by none. An expired record is as good as purged for every query. -/
namespace AuditLog

namespace Acceptance

def event (a : Acceptance) : String := (a.source.record.text? Field.event).getD ""

def causeOf (players : Option Players) (raw : String) : String :=
  (do (← players).name? (← Uuid.parse? raw)).getD raw

def completed (players : Option Players) (a : Acceptance) (r : Record) : Record :=
  match a.source.record.text? Field.player with
  | some raw => Table.insert "cause" (.text (causeOf players raw)) (a.dated r)
  | none => a.dated r

/-- The entry that is returned: what comes back of the accepted record, completed. -/
def entry (players : Option Players) (a : Acceptance) : Entry :=
  .single a.event (a.completed players a.source.record.readBack)

theorem event_spec (a : Acceptance) : a.source.record.text? Field.event = some a.event := by
  have named := a.named
  unfold event
  cases text : a.source.record.text? Field.event with
  | none => simp [text] at named
  | some e => rfl

theorem text?_dated (a : Acceptance) {name : String} (named : name.isEmpty = false)
    (expires : name ≠ "expires") (created : name ≠ "created") :
    Record.text? (a.dated a.source.record.readBack) (.of name) =
      a.source.record.text? (.of name) := by
  rw [← Record.text?_readBack a.source.ordered named]
  change (Table.find? name (a.dated a.source.record.readBack)).bind Datum.text? =
    (Table.find? name a.source.record.readBack).bind Datum.text?
  rw [dated, Table.find?_insert, Table.find?_insert, if_neg expires, if_neg created]

theorem shown_reread (archive : Archive) (zone : Zone) (a : Acceptance) :
    archive.shown zone (.single a.document.reread) =
      .ok (a.entry archive.players) := by
  have event : Record.text? (a.dated a.source.record.readBack) Field.event = some a.event :=
    (a.text?_dated (by decide) (by decide) (by decide)).trans a.event_spec
  have player : Record.text? (a.dated a.source.record.readBack) Field.player =
      a.source.record.text? Field.player := a.text?_dated (by decide) (by decide) (by decide)
  simp only [Archive.shown, Archive.entryOf, a.ofDocument_reread, event, bind, Except.bind, pure,
    Except.pure, Archive.withPlayerName, Entry.data, player, entry, completed]
  cases a.source.record.text? Field.player with
  | none => rfl
  | some raw => rfl

end Acceptance

namespace Archive

/-- All single records, without a condition. -/
structure AsksForAll (session : Session) : Prop where
  single : session.has .noGroup = true
  chat : session.has .noChat = false
  unconditional : session.query.conditions = []

theorem AsksForAll.pipeline {session : Session} (asks : AsksForAll session) :
    Pipeline.ofSession session =
      .ok ⟨Filter.everything, none, session.order, session.query.limit⟩ := by
  simp only [Pipeline.ofSession, asks.unconditional, asks.single, asks.chat]
  rfl

theorem AsksForAll.found_perm {session : Session} {archive : Archive} {p : Pipeline}
    (asks : AsksForAll session) (now : Instant) (translated : Pipeline.ofSession session = .ok p)
    (enough : archive.store.size ≤ session.query.limit) :
    (archive.found now p).Perm ((archive.store.scan now.micros).map Row.single) := by
  rw [asks.pipeline] at translated
  cases translated
  have everything (ds : List Document) : ds.filter (fun d => Filter.everything.admits d) = ds := by
    apply List.filter_eq_self.mpr
    intro d _
    exact Filter.admits_everything d
  have scanned : archive.found now ⟨.everything, none, session.order, session.query.limit⟩ =
      (Pipeline.sortRows session.order
        ((archive.store.scan now.micros).map Row.single)).take session.query.limit := by
    unfold found Pipeline.rows
    rw [everything]
    rfl
  have short : (Pipeline.sortRows session.order
      ((archive.store.scan now.micros).map Row.single)).length ≤ session.query.limit := by
    rw [Pipeline.sortRows, List.length_mergeSort, List.length_map]
    apply (List.length_filterMap_le _ _).trans
    exact (List.length_filter_le _ _).trans enough
  rw [scanned, List.take_of_length_le short]
  exact List.mergeSort_perm _ _

/-- A query for all records returns one entry for each live and readable acceptance. -/
theorem query_live (retention : Nat) (players : Option Players) (steps : List Step)
    (now : Instant) {session : Session} (asks : AsksForAll session)
    (enough : (run retention players steps).store.size ≤ session.query.limit) :
    ∃ entries, (run retention players steps).query now session = .ok entries ∧
      entries.Perm
        (((live retention steps now).filter fun a => a.Readable).map fun a => a.entry players) := by
  have rows := (asks.found_perm now asks.pipeline enough).trans
    ((scan_perm_live retention players steps now).map Row.single)
  have settings := (run_follows retention players steps).2.2
  rw [List.map_map] at rows
  rw [query_eq _ now asks.pipeline]
  obtain ⟨entries, shown, perm⟩ := mapM_perm rows (by
    intro a _
    exact a.shown_reread (run retention players steps) session.zone)
  rw [settings] at perm
  exact ⟨entries, shown, perm⟩

theorem scanSince_purge (store : Store) (since now : Int) :
    (store.purge now).1.scanSince since now = store.scanSince since now := by
  simp only [Store.scanSince, Store.purge, List.filter_filter, List.filterMap_filter]
  apply List.filterMap_congr
  intro entry _
  cases expired : entry.2.isExpired now <;> simp [Store.live?, expired]

theorem query_purge (archive : Archive) (now : Instant) (session : Session) :
    (archive.purge now).1.query now session = archive.query now session := by
  simp only [query, purge, scanSince_purge]

theorem purge_live (retention : Nat) (players : Option Players) (steps : List Step)
    (now : Instant) :
    (((run retention players steps).purge now).1.store.records.map Prod.snd).Perm
      ((live retention steps now).map Acceptance.stored) := by
  have follows := (run_follows retention players steps).1.purge now
  rw [Ledger.run_eq_survivors] at follows
  exact follows.same

/-- A query for all records succeeds and returns one entry for each acceptance that is live and
not nested too deep for the reader; a plain record comes back in it with its doubles as they are
read. To any query at that time, an expired record is as good as purged. -/
theorem live_records_returned (retention : Nat) (players : Option Players) (steps : List Step)
    (now : Instant) (session : Session) (asks : AsksForAll session)
    (enough : (run retention players steps).store.size ≤ session.query.limit) :
    (∀ clock r, (Ledger.accept? retention clock r).isSome ↔
      ∃ stored, (run retention players steps).prepare clock r.record = .ok stored) ∧
    (∃ entries, (run retention players steps).query now session = .ok entries ∧
      entries.Perm
        (((live retention steps now).filter fun a => a.Readable).map fun a => a.entry players)) ∧
    (∀ a ∈ live retention steps now, Datum.PlainEntries a.source.record →
      a.entry players = .single a.event (a.completed players a.source.record.reread)) ∧
    (((run retention players steps).purge now).1.store.records.map Prod.snd).Perm
      ((live retention steps now).map Acceptance.stored) ∧
    ∀ any : Session, (run retention players steps).query now any =
      ((run retention players steps).purge now).1.query now any := by
  refine ⟨?_, query_live retention players steps now asks enough, ?_,
    purge_live retention players steps now, ?_⟩
  · intro clock r
    rw [← accept?_isSome_iff, (run_follows retention players steps).2.1]
  · intro a _ plain
    rw [Acceptance.entry, Record.readBack_plain plain]
  · intro any
    exact (query_purge _ now any).symm

def everything : Session := (Session.start .console .utc).turnOn .noGroup

theorem everything_asks : AsksForAll everything := ⟨by decide, by decide, rfl⟩

theorem flat_record_returned : AsksForAll everything ∧
    (run 3600 none [.write noon [flat], .purge noon]).store.size ≤ everything.query.limit ∧
    ∃ entries, (run 3600 none [.write noon [flat], .purge noon]).query noon everything =
      .ok entries ∧ entries.length = 1 := by
  have enough : (run 3600 none [.write noon [flat], .purge noon]).store.size ≤
      everything.query.limit := by decide +kernel
  obtain ⟨-, ⟨entries, result, perm⟩, -⟩ := live_records_returned 3600 none
    [.write noon [flat], .purge noon] noon everything everything_asks enough
  refine ⟨everything_asks, enough, entries, result, perm.length_eq.trans ?_⟩
  rw [List.length_map]
  decide +kernel

def nest : Nat → Datum
  | 0 => .int 1
  | n + 1 => .record [("a", nest n)]

theorem nest_inOrder (n : Nat) : (nest n).InOrder := by
  induction n with
  | zero => trivial
  | succ n ih => exact ⟨List.pairwise_singleton _ _, ih, trivial⟩

def deep : OrderedRecord :=
  ⟨[("a", nest 63), ("event", .text "break")], by decide, nest_inOrder 63, trivial, trivial⟩

/-- A record nested too deep is accepted and live, yet a query for all records returns none. -/
theorem deep_record_lost :
    (live 3600 [.write noon [deep]] noon).length = 1 ∧
      (run 3600 none [.write noon [deep]]).query noon everything = .ok [] := by
  have accepted : (live 3600 [.write noon [deep]] noon).length = 1 := by decide +kernel
  have unreadable : (live 3600 [.write noon [deep]] noon).filter (fun a => a.Readable) = [] := by
    decide +kernel
  obtain ⟨entries, result, perm⟩ := query_live 3600 none [.write noon [deep]] noon everything_asks
    (by decide +kernel)
  rw [unreadable, List.map_nil, List.perm_nil] at perm
  exact ⟨accepted, perm ▸ result⟩

end Archive
end AuditLog
