import AuditLog.Pipeline
import AuditLog.Proofs.ConditionMeaning

/-! What a pipeline does to a list of documents, said of lists: it keeps those that match, counts
them by group unless single rows are wanted, sorts stably by time of creation and takes the first
rows. A list has one stable sort only, so nothing else can have been returned. -/
namespace AuditLog

/-- Those elements that stand in order already are left as they stood by a stable sort. -/
theorem filter_mergeSort {α : Type} {le : α → α → Bool}
    (trans : ∀ a b c, le a b = true → le b c = true → le a c = true)
    (total : ∀ a b, (le a b || le b a) = true) {keep : α → Bool} {xs : List α}
    (inOrder : (xs.filter keep).Pairwise fun a b => le a b = true) :
    (xs.mergeSort le).filter keep = xs.filter keep := by
  have kept := (List.sublist_mergeSort trans total inOrder List.filter_sublist).filter keep
  rw [List.filter_filter, List.filter_congr (q := keep) (by simp)] at kept
  exact (kept.eq_of_length ((List.mergeSort_perm xs le).filter keep).length_eq.symm).symm

/-- A stable sort by a number leaves elements of equal numbers as they stood. -/
theorem pairwise_mergeSort {α : Type} {r : α → α → Prop} {xs : List α} (f : α → Nat)
    (related : xs.Pairwise r) : (xs.mergeSort fun a b => f a ≤ f b).Pairwise fun a b =>
      f a < f b ∨ f a = f b ∧ r a b := by
  have trans (a b c : α) (ab : decide (f a ≤ f b) = true) (bc : decide (f b ≤ f c) = true) :
      decide (f a ≤ f c) = true := by
    simp only [decide_eq_true_eq] at *
    exact Nat.le_trans ab bc
  have total (a b : α) : (decide (f a ≤ f b) || decide (f b ≤ f a)) = true := by
    simp only [Bool.or_eq_true, decide_eq_true_eq]
    exact Nat.le_total _ _
  have sorted := List.pairwise_mergeSort trans total xs
  rw [List.pairwise_iff_forall_sublist] at sorted ⊢
  intro a b sub
  have le : f a ≤ f b := of_decide_eq_true (sorted sub)
  rcases Nat.lt_or_eq_of_le le with less | equal
  · exact .inl less
  · -- among those of this number the sort changed nothing
    have level : (xs.filter fun c => f c = f a).Pairwise fun c d =>
        decide (f c ≤ f d) = true := by
      apply List.pairwise_of_forall_mem_list
      intro c memberC d memberD
      have hc := of_decide_eq_true (List.mem_filter.mp memberC).2
      have hd := of_decide_eq_true (List.mem_filter.mp memberD).2
      exact decide_eq_true (Nat.le_of_eq (hc.trans hd.symm))
    have kept := sub.filter fun c => f c = f a
    rw [filter_mergeSort trans total level] at kept
    have both : [a, b].filter (fun c => decide (f c = f a)) = [a, b] := by
      simp [← equal]
    rw [both] at kept
    exact .inr ⟨equal, List.pairwise_iff_forall_sublist.mp related (kept.trans List.filter_sublist)⟩
namespace Instant

instance : Std.TransCmp compare :=
  inferInstanceAs (Std.TransCmp (compareLex (compareOn seconds) (compareOn nanos)))

theorem eq_of_compare {a b : Instant} (equal : a.compare b = .eq) : a = b := by
  obtain ⟨seconds, nanos⟩ := Ordering.then_eq_eq.mp equal
  cases a
  cases b
  cases Std.LawfulEqOrd.eq_of_compare seconds
  cases Std.LawfulEqOrd.eq_of_compare nanos
  rfl

theorem isLE_total (a b : Instant) : (a.compare b).isLE = true ∨ (b.compare a).isLE = true := by
  have swapped : b.compare a = (a.compare b).swap := Std.OrientedCmp.eq_swap
  rw [swapped]
  cases a.compare b with
  | gt => exact .inr rfl
  | _ => exact .inl rfl

end Instant

namespace Pipeline

/-- Which of two times of creation may come first; a missing one comes last in both orders. -/
def MayPrecede (order : SortOrder) : Option Instant → Option Instant → Prop
  | _, none => True
  | none, some _ => False
  | some a, some b =>
    match order with
    | .ascending => (a.compare b).isLE = true
    | .descending => (b.compare a).isLE = true

namespace MayPrecede

variable {order : SortOrder}

theorem total (a b : Option Instant) : MayPrecede order a b ∨ MayPrecede order b a := by
  cases a with
  | none => exact .inr trivial
  | some a =>
    cases b with
    | none => exact .inl trivial
    | some b =>
      cases order with
      | ascending => exact a.isLE_total b
      | descending => exact b.isLE_total a

theorem trans {a b c : Option Instant} (first : MayPrecede order a b)
    (second : MayPrecede order b c) : MayPrecede order a c := by
  cases c with
  | none => cases a <;> trivial
  | some c =>
    cases b with
    | none => cases second
    | some b =>
      cases a with
      | none => cases first
      | some a =>
        cases order with
        | ascending => exact Std.TransCmp.isLE_trans first second
        | descending => exact Std.TransCmp.isLE_trans second first

theorem antisymm {a b : Option Instant} (first : MayPrecede order a b)
    (second : MayPrecede order b a) : a = b := by
  cases a with
  | none =>
    cases b with
    | none => rfl
    | some b => cases first
  | some a =>
    cases b with
    | none => cases second
    | some b =>
      apply congrArg some
      cases order with
      | ascending => exact Instant.eq_of_compare (Std.OrientedCmp.isLE_antisymm first second)
      | descending => exact Instant.eq_of_compare (Std.OrientedCmp.isLE_antisymm second first)

end MayPrecede

theorem compareCreated_isLE {order : SortOrder} (a b : Option Instant) :
    (compareCreated order a b).isLE = true ↔ MayPrecede order a b := by
  cases a <;> cases b <;> cases order <;> simp [compareCreated, MayPrecede]

/-- The rows in order of creation, with equally dated rows as they stood. -/
structure StableSort (order : SortOrder) (rows sorted : List Row) : Prop where
  perm : sorted.Perm rows
  inOrder : sorted.Pairwise fun a b => MayPrecede order a.created? b.created?
  ties : ∀ c : Option Instant,
    (sorted.filter fun row => decide (row.created? = c)) =
      rows.filter fun row => decide (row.created? = c)

theorem stableSort_sortRows (order : SortOrder) (rows : List Row) :
    StableSort order rows (sortRows order rows) := by
  have trans (a b c : Row) (first : (compareCreated order a.created? b.created?).isLE = true)
      (second : (compareCreated order b.created? c.created?).isLE = true) :
      (compareCreated order a.created? c.created?).isLE = true := by
    rw [compareCreated_isLE] at *
    exact first.trans second
  have total (a b : Row) : ((compareCreated order a.created? b.created?).isLE ||
      (compareCreated order b.created? a.created?).isLE) = true := by
    rw [Bool.or_eq_true, compareCreated_isLE, compareCreated_isLE]
    exact MayPrecede.total _ _
  have perm : (sortRows order rows).Perm rows := List.mergeSort_perm _ _
  refine ⟨perm, ?_, ?_⟩
  · apply (List.pairwise_mergeSort trans total rows).imp
    intro a b le
    exact (compareCreated_isLE _ _).mp le
  · intro c
    have tied : (rows.filter fun row => decide (row.created? = c)).Pairwise
        fun a b => (compareCreated order a.created? b.created?).isLE = true := by
      apply List.pairwise_of_forall_mem_list
      intro a left b right
      have same := of_decide_eq_true (List.mem_filter.mp left).2
      have same' := of_decide_eq_true (List.mem_filter.mp right).2
      rw [compareCreated_isLE, same, same']
      exact (MayPrecede.total c c).elim id id
    exact filter_mergeSort trans total tied

/-- The first rows of two stable sorts are equally dated, so as ties they are the same row. -/
theorem StableSort.unique {order : SortOrder} {rows sorted others : List Row}
    (stable : StableSort order rows sorted) (stable' : StableSort order rows others) :
    sorted = others := by
  have perm := stable.perm.trans stable'.perm.symm
  have ties (c : Option Instant) := (stable.ties c).trans (stable'.ties c).symm
  have left := stable.inOrder
  have right := stable'.inOrder
  clear stable stable'
  induction sorted generalizing others with
  | nil => exact (List.nil_perm.mp perm).symm
  | cons a sorted ih =>
    cases others with
    | nil => cases List.perm_nil.mp perm
    | cons b others =>
      have before : MayPrecede order a.created? b.created? := by
        rcases List.mem_cons.mp (perm.mem_iff.mpr List.mem_cons_self) with same | later
        · exact same ▸ (MayPrecede.total _ _).elim id id
        · exact (List.pairwise_cons.mp left).1 b later
      have after : MayPrecede order b.created? a.created? := by
        rcases List.mem_cons.mp (perm.mem_iff.mp List.mem_cons_self) with same | later
        · exact same ▸ (MayPrecede.total _ _).elim id id
        · exact (List.pairwise_cons.mp right).1 a later
      have dated := before.antisymm after
      obtain rfl : a = b := by
        have first := ties a.created?
        rw [List.filter_cons_of_pos (by simp), List.filter_cons_of_pos (by simp [dated])] at first
        exact (List.cons.inj first).1
      congr 1
      apply ih (List.perm_cons a |>.mp perm) ?_ (List.pairwise_cons.mp left).2
        (List.pairwise_cons.mp right).2
      intro c
      have tied := ties c
      rw [List.filter_cons, List.filter_cons] at tied
      split at tied
      · exact (List.cons.inj tied).2
      · exact tied

def noMessage : Filter := Filter.everything.merge (Filter.everything.add Field.message (.present false))

theorem admits_noMessage (d : Document) :
    noMessage.admits d = (Table.find? "message" d).isNone := by
  have found : Document.get? d Field.message = Table.find? "message" d := rfl
  rw [noMessage, Filter.admits_merge, Filter.admits_add, Filter.admits_everything, found]
  cases Table.find? "message" d <;> rfl

end Pipeline

namespace Session

/-- The pipeline of a session whose conditions ask for this filter. -/
def pipeline (session : Session) (asked : Filter) : Pipeline where
  filter := if session.has .noChat then asked.merge Pipeline.noMessage else asked
  grouping := if session.has .noGroup then none else some session.zone
  order := session.order
  limit := session.query.limit

def limited (session : Session) (n : Nat) : Session :=
  { session with query := { session.query with limit := n } }

/-- The document passes the filter, and where chat is left out it has no message. -/
def wants (session : Session) (asked : Filter) (d : Document) : Bool :=
  asked.admits d && (!session.has .noChat || (Table.find? "message" d).isNone)

/-- All rows of a search, before they are sorted and cut. -/
def allRows (session : Session) (asked : Filter) (ds : List Document) : List Row :=
  let wanted := ds.filter (session.wants asked)
  if session.has .noGroup then wanted.map .single
  else (Group.ofDocuments session.zone wanted).map .group

end Session

namespace Pipeline

theorem ofSession_ok {session : Session} {asked : Filter}
    (translated : Filter.ofConditions session.query.conditions = .ok asked) :
    ofSession session = .ok (session.pipeline asked) := by
  unfold ofSession
  rw [translated]
  rfl

theorem eq_pipeline {session : Session} {p : Pipeline} (made : ofSession session = .ok p) :
    ∃ asked, Filter.ofConditions session.query.conditions = .ok asked ∧
      p = session.pipeline asked := by
  cases translated : Filter.ofConditions session.query.conditions with
  | error e =>
    unfold ofSession at made
    rw [translated] at made
    cases made
  | ok asked =>
    rw [ofSession_ok translated] at made
    cases made
    exact ⟨asked, rfl, rfl⟩

theorem rows_pipeline (session : Session) (asked : Filter) (ds : List Document) :
    (session.pipeline asked).rows ds =
      (sortRows session.order (session.allRows asked ds)).take session.query.limit := by
  have wanted : (ds.filter fun d => Filter.admits d
      (if session.has .noChat then asked.merge noMessage else asked)) =
        ds.filter (session.wants asked) := by
    apply List.filter_congr
    intro d _
    rw [Session.wants]
    cases session.has .noChat with
    | false => simp
    | true => simp [Filter.admits_merge, admits_noMessage]
  simp only [rows, Session.pipeline, wanted, Session.allRows]
  cases session.has .noGroup <;> rfl

/-- A pipeline returns the first rows of the one stable sort of those that the session wants. So a
larger limit only adds rows at the end, and another order only permutes the rows where the limit
cuts none. -/
theorem rows_stable_sort (session : Session) (p : Pipeline) (made : ofSession session = .ok p)
    (ds : List Document) :
    ∃ asked sorted, Filter.ofConditions session.query.conditions = .ok asked ∧
      StableSort session.order (session.allRows asked ds) sorted ∧
      (∀ other, StableSort session.order (session.allRows asked ds) other → other = sorted) ∧
      p.rows ds = sorted.take session.query.limit ∧
      (∀ n m, n ≤ m → ∃ q r, ofSession (session.limited n) = .ok q ∧
        ofSession (session.limited m) = .ok r ∧ q.rows ds <+: r.rows ds) ∧
      ∀ order n m, (session.allRows asked ds).length ≤ n → (session.allRows asked ds).length ≤ m →
        ∃ q r, ofSession (session.limited n) = .ok q ∧
          ofSession { session.limited m with order := order } = .ok r ∧
          (q.rows ds).Perm (r.rows ds) := by
  obtain ⟨asked, translated, rfl⟩ := eq_pipeline made
  have stable := stableSort_sortRows session.order (session.allRows asked ds)
  have sorted (order : SortOrder) (n : Nat) :
      ∃ q, ofSession { session.limited n with order := order } = .ok q ∧
        q.rows ds = (sortRows order (session.allRows asked ds)).take n := by
    have made' : ofSession { session.limited n with order := order } = _ := ofSession_ok translated
    exact ⟨_, made', rows_pipeline { session.limited n with order := order } asked ds⟩
  refine ⟨asked, _, translated, stable, ?_, rows_pipeline session asked ds, ?_, ?_⟩
  · intro other stable'
    exact stable'.unique stable
  · intro n m less
    obtain ⟨q, made', first⟩ := sorted session.order n
    obtain ⟨r, made'', more⟩ := sorted session.order m
    refine ⟨q, r, made', made'', ?_⟩
    rw [first, more]
    exact List.take_prefix_take_left less
  · intro order n m enough enough'
    obtain ⟨q, made', all⟩ := sorted session.order n
    obtain ⟨r, made'', others⟩ := sorted order m
    have perm (order : SortOrder) := (stableSort_sortRows order (session.allRows asked ds)).perm
    refine ⟨q, r, made', made'', ?_⟩
    rw [all, others, List.take_of_length_le (by rw [(perm _).length_eq]; exact enough),
      List.take_of_length_le (by rw [(perm _).length_eq]; exact enough')]
    exact (perm _).trans (perm _).symm

def quiet : Session :=
  (((Session.start .console .utc).turnOn .noGroup).turnOn .noChat).limited 2

def early : Document := [("created", .instant (.whole 1 (by decide) (by decide)))]

def late : Document := [("created", .instant (.whole 2 (by decide) (by decide)))]

def undated : Document := [("event", .text "break")]

def chat : Document :=
  [("created", .instant (.whole 3 (by decide) (by decide))), ("message", .text "hello")]

theorem quiet_rows_sorted :
    ∃ p, ofSession quiet = .ok p ∧ ∃ sorted,
      StableSort .descending [.single undated, .single early, .single late, .single early] sorted ∧
      p.rows [undated, early, chat, late, early] = sorted.take 2 := by
  have translated : Filter.ofConditions quiet.query.conditions = .ok Filter.everything := rfl
  have made := ofSession_ok translated
  obtain ⟨asked, sorted, asks, stable, -, rows, -⟩ :=
    rows_stable_sort quiet _ made [undated, early, chat, late, early]
  rw [translated] at asks
  cases asks
  exact ⟨_, made, sorted, stable, rows⟩

end Pipeline
end AuditLog
