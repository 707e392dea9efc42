import AuditLog.Proofs.QueryRows

/-! Starting a scan at the lower bound of a filter. Every match is created at the bound or after
it, so the scan misses none, unless the bound is a leap second: that ends up to a second after
the next one has begun, so in microseconds it may lie beyond a later instant. -/
namespace AuditLog

namespace Instant

theorem micros_mono {a b : Instant} (later : b.compare a ≠ .lt) (ordinary : a.nanos < 1000000000) :
    a.micros ≤ b.micros := by
  simp only [compare, ne_eq, Ordering.then_eq_lt, not_or, not_and] at later
  unfold micros
  rcases Int.lt_trichotomy a.seconds b.seconds with before | same | after
  · omega
  · have nanos := later.2 (Int.compare_eq_eq.mpr same.symm)
    rw [Nat.compare_eq_lt] at nanos
    omega
  · exact absurd (Int.compare_eq_lt.mpr after) later.1

theorem latest_cases (a b : Instant) : a.latest b = a ∨ a.latest b = b := by
  unfold latest
  split
  · exact .inr rfl
  · exact .inl rfl

theorem mem_foldl_latest (rest : List Instant) (first : Instant) :
    rest.foldl latest first ∈ first :: rest := by
  induction rest generalizing first with
  | nil => simp
  | cons t others ih =>
    rw [List.foldl_cons]
    rcases List.mem_cons.mp (ih (first.latest t)) with same | later
    · rcases latest_cases first t with earlier | later <;> simp_all
    · simp [later]

end Instant

namespace Pipeline

variable {p : Pipeline} {d : Document}

theorem lowerBound_keeps {field : Option Value} {test : Test} {t : Instant}
    (bound : lowerBound? test = some t) (pass : test.matches? field = true) :
    ∃ c, field = some (.instant c) ∧ c.compare t ≠ .lt := by
  have stands : StandsOn (· ≠ .lt) field (.instant t) := by
    cases test with
    | atLeast v =>
      cases v <;> cases bound
      exact (Test.matches_lower field _).1.1 pass
    | above v =>
      cases v <;> cases bound
      obtain ⟨v, o, present, compared, side⟩ := (Test.matches_lower field _).2.1 pass
      exact ⟨v, o, present, compared, by simp [side]⟩
    | _ => cases bound
  obtain ⟨v, o, present, compared, side⟩ := stands
  cases v <;> cases compared
  exact ⟨_, present, side⟩

/-- Every match is created at the bound or after it, as instants are ordered. -/
theorem createdSince_keeps {t : Instant} (bound : p.createdSince = some t)
    (matching : p.filter.admits d = true) :
    ∃ c, Document.instant? d "created" = some c ∧ c.compare t ≠ .lt := by
  have pass : ((p.filter.tests Field.created).all
      (Test.matches? (Document.get? d Field.created))) = true := by
    rw [Filter.admits_eq, Bool.and_eq_true] at matching
    exact Filter.find?_pass d p.filter.fields Field.created matching.1
  obtain ⟨test, known, lower⟩ : ∃ test ∈ p.filter.tests Field.created, lowerBound? test = some t := by
    unfold createdSince at bound
    split at bound
    next => cases bound
    next first rest bounds =>
      cases bound
      have member := Instant.mem_foldl_latest rest first
      rw [← bounds] at member
      exact List.mem_filterMap.mp member
  obtain ⟨c, created, later⟩ := lowerBound_keeps lower (List.all_eq_true.mp pass test known)
  refine ⟨c, ?_, later⟩
  have found : Table.find? "created" d = some (.instant c) := created
  rw [Document.instant?, found]
  rfl

theorem rows_congr {ds others : List Document}
    (same : (ds.filter fun d => p.filter.admits d) = others.filter fun d => p.filter.admits d) :
    p.rows ds = p.rows others := by
  simp only [rows, same]

end Pipeline

theorem filter_late {α β : Type} (late : α → Bool) (f : α → Option β) (matching : β → Bool)
    (xs : List α) :
    ((xs.filter late).filterMap f).filter matching = (xs.filterMap f).filter matching ↔
      ∀ x ∈ xs, ∀ d, f x = some d → matching d = true → late x = true := by
  induction xs with
  | nil => simp
  | cons x rest ih =>
    have shorter : (((rest.filter late).filterMap f).filter matching).length ≤
        ((rest.filterMap f).filter matching).length :=
      ((List.filter_sublist.filterMap f).filter matching).length_le
    rw [List.forall_mem_cons, ← ih]
    cases within : late x with
    | true =>
      rw [List.filter_cons_of_pos within]
      cases image : f x with
      | none => simp [image]
      | some d => cases pass : matching d <;> simp [image, pass]
    | false =>
      rw [List.filter_cons_of_neg (by simp [within])]
      cases image : f x with
      | none => simp [image]
      | some d =>
        cases pass : matching d with
        | false => simp [image, pass]
        | true =>
          simp only [List.filterMap_cons, image, List.filter_cons_of_pos pass]
          constructor
          · intro equal
            rw [equal, List.length_cons] at shorter
            omega
          · rintro ⟨early, -⟩
            cases early d rfl pass

namespace Archive

/-- Every live match is created at the bound of the scan or later, in whole microseconds. -/
def Reaches (retention : Nat) (steps : List Step) (now : Instant) (p : Pipeline) : Prop :=
  ∀ a ∈ live retention steps now, a.Readable → p.filter.admits a.document.reread = true →
    Store.keyTime p.since ≤ Store.keyTime a.created.micros

theorem matches_since_iff (retention : Nat) (players : Option Players) (steps : List Step)
    (now : Instant) (p : Pipeline) :
    (((run retention players steps).store.scanSince p.since now.micros).filter
        fun d => p.filter.admits d) =
      (((run retention players steps).store.scan now.micros).filter fun d => p.filter.admits d) ↔
      Reaches retention steps now p := by
  have follows := (run_follows retention players steps).1
  rw [Ledger.run_eq_survivors] at follows
  rw [Store.scan_eq, Store.scanSince, filter_late]
  constructor
  · intro late a alive readable matching
    obtain ⟨survives, early⟩ := List.mem_filter.mp alive
    have stored := follows.same.mem_iff.2 (List.mem_map_of_mem (f := Acceptance.stored) survives)
    obtain ⟨entry, known, same⟩ := List.mem_map.mp stored
    have found : Store.live? now.micros entry.2 = some a.document.reread := by
      rw [same, a.live?_stored, Acceptance.scanned?, if_pos ⟨of_decide_eq_true early, readable⟩]
    have reached := of_decide_eq_true (late entry known _ found matching)
    have created : entry.2.created.toInt = a.created.micros := by
      rw [same]
      exact a.created.toInt_micros
    rwa [follows.keyed entry known, created] at reached
  · intro reaches entry known d found matching
    obtain ⟨a, survives, same, time⟩ := follows.entry known
    rw [same, a.live?_stored] at found
    obtain ⟨early, readable, rfl⟩ := Acceptance.scanned?_some found
    rw [time]
    have alive : a ∈ live retention steps now :=
      List.mem_filter.mpr ⟨survives, decide_eq_true early⟩
    apply decide_eq_true
    exact reaches a alive readable matching

theorem reaches_ordinary (retention : Nat) (steps : List Step) (now : Instant) {p : Pipeline}
    (ordinary : ∀ t, p.createdSince = some t → t.nanos < 1000000000) :
    Reaches retention steps now p := by
  intro a _ _ matching
  unfold Pipeline.since
  cases bound : p.createdSince with
  | none => exact Nat.zero_le _
  | some t =>
    obtain ⟨c, created, later⟩ := Pipeline.createdSince_keeps bound matching
    rw [a.created_reread] at created
    cases created
    rw [← a.created.micros_reread]
    apply Int.toNat_le_toNat
    exact Instant.micros_mono later (ordinary t bound)

theorem length_rows_single {p : Pipeline} (ungrouped : p.grouping = none) (ds : List Document) :
    (p.rows ds).length = min p.limit (ds.filter fun d => p.filter.admits d).length := by
  simp only [Pipeline.rows, ungrouped, List.length_take, Pipeline.sortRows, List.length_mergeSort,
    List.length_map]

theorem reaches_of_found {retention : Nat} {players : Option Players} {steps : List Step}
    {now : Instant} {p : Pipeline} (ungrouped : p.grouping = none)
    (enough : (run retention players steps).store.size ≤ p.limit)
    (same : (run retention players steps).found now p =
      p.rows ((run retention players steps).store.scan now.micros)) :
    Reaches retention steps now p := by
  rw [← matches_since_iff retention players steps now p]
  have shorter : (((run retention players steps).store.scanSince p.since now.micros).filter
      fun d => p.filter.admits d).Sublist
        (((run retention players steps).store.scan now.micros).filter
          fun d => p.filter.admits d) := by
    rw [Store.scan_eq, Store.scanSince]
    exact (List.filter_sublist.filterMap _).filter _
  have short : (((run retention players steps).store.scan now.micros).filter
      fun d => p.filter.admits d).length ≤ p.limit := by
    rw [Store.scan_eq]
    exact (List.length_filter_le _ _).trans ((List.length_filterMap_le _ _).trans enough)
  have lengths := congrArg List.length same
  rw [found, length_rows_single ungrouped, length_rows_single ungrouped] at lengths
  have less := shorter.length_le
  exact shorter.eq_of_length (by omega)

/-- The rows of a query, which scans from the bound of its pipeline, are those of a full scan if
every live match is reached; a bound that is no leap second reaches them all, and where all single
rows are wanted the rows differ otherwise. -/
theorem rows_since_bound (retention : Nat) (players : Option Players) (steps : List Step)
    (now : Instant) (session : Session) (p : Pipeline)
    (translated : Pipeline.ofSession session = .ok p) :
    (run retention players steps).query now session =
      ((run retention players steps).found now p).mapM
        ((run retention players steps).shown session.zone) ∧
    (Reaches retention steps now p → (run retention players steps).found now p =
      p.rows ((run retention players steps).store.scan now.micros)) ∧
    ((∀ t, p.createdSince = some t → t.nanos < 1000000000) → Reaches retention steps now p) ∧
    (p.grouping = none → (run retention players steps).store.size ≤ p.limit →
      (run retention players steps).found now p =
        p.rows ((run retention players steps).store.scan now.micros) →
      Reaches retention steps now p) := by
  refine ⟨query_eq _ now translated, ?_, reaches_ordinary retention steps now, reaches_of_found⟩
  intro reaches
  exact Pipeline.rows_congr ((matches_since_iff retention players steps now p).2 reaches)

def sinceThen (t : Instant) : Session :=
  { (Session.start .console .utc).turnOn .noGroup with
    query := ⟨[.since Field.created t Field.created_ne], 10⟩ }

theorem flat_record_since_noon : ∃ p, Pipeline.ofSession (sinceThen noon) = .ok p ∧
    p.createdSince = some noon ∧ (run 3600 none [.write noon [flat]]).found noon p =
      p.rows ((run 3600 none [.write noon [flat]]).store.scan noon.micros) := by
  let p := ((Pipeline.ofSession (sinceThen noon)).toOption.getD
    ⟨Filter.everything, none, .descending, 0⟩)
  have translated : Pipeline.ofSession (sinceThen noon) = .ok p := rfl
  have bound : p.createdSince = some noon := rfl
  obtain ⟨-, reached, ordinary, -⟩ := rows_since_bound 3600 none [.write noon [flat]] noon
    (sinceThen noon) p translated
  refine ⟨p, translated, bound, ?_⟩
  apply reached
  apply ordinary
  intro t same
  cases bound.symm.trans same
  decide

def leapSecond : Instant := ⟨1483228799, 1500000000, by decide, by decide, by decide⟩

def newYear : Instant := ⟨1483228800, 100000000, by decide, by decide, by decide⟩

def firstOfYear : OrderedRecord :=
  ⟨[("created", .instant newYear), ("event", .text "break")], by decide, ⟨trivial, trivial, trivial⟩⟩

/-- A record created after a leap second is not found in a search from that leap second on. -/
theorem leap_second_loses : ∃ p, Pipeline.ofSession (sinceThen leapSecond) = .ok p ∧
    (run 3600 none [.write newYear [firstOfYear]]).found newYear p ≠
      p.rows ((run 3600 none [.write newYear [firstOfYear]]).store.scan newYear.micros) := by
  let p := ((Pipeline.ofSession (sinceThen leapSecond)).toOption.getD
    ⟨Filter.everything, none, .descending, 0⟩)
  have enough : (run 3600 none [.write newYear [firstOfYear]]).store.size ≤ p.limit := by
    decide +kernel
  refine ⟨p, rfl, ?_⟩
  intro same
  have reaches := reaches_of_found (p := p) rfl enough same
  have matched : ∃ a ∈ live 3600 [.write newYear [firstOfYear]] newYear, a.Readable ∧
      p.filter.admits a.document.reread = true ∧
      ¬ Store.keyTime p.since ≤ Store.keyTime a.created.micros := by decide +kernel
  obtain ⟨a, alive, readable, matching, early⟩ := matched
  exact early (reaches a alive readable matching)

end Archive
end AuditLog
