import AuditLog.Proofs.ArchiveRun
import AuditLog.Proofs.ConditionMeaning

/-! A query as a pipeline over what a scan finds, followed by one conversion for each row. It
succeeds exactly when every row can be converted; a single row always can. -/
namespace AuditLog

theorem mapM_ok {ε α β : Type} {f : α → Except ε β} {g : α → β} {xs : List α}
    (each : ∀ x ∈ xs, f x = .ok (g x)) : xs.mapM f = .ok (xs.map g) := by
  induction xs with
  | nil => rfl
  | cons x rest ih =>
    have here := each x (by simp)
    have later := ih (by
      intro y member
      apply each
      simp [member])
    rw [List.mapM_cons, here, later]
    rfl

theorem mapM_perm {ε α β γ : Type} {f : β → Except ε γ} {image : α → β} {result : α → γ}
    {xs : List β} {sources : List α} (perm : xs.Perm (sources.map image))
    (each : ∀ a ∈ sources, f (image a) = .ok (result a)) :
    ∃ ys, xs.mapM f = .ok ys ∧ ys.Perm (sources.map result) := by
  cases sources with
  | nil =>
    rw [List.map_nil, List.perm_nil] at perm
    subst perm
    exact ⟨[], rfl, .refl _⟩
  | cons first others =>
    let value (x : β) : γ := match f x with
      | .ok y => y
      | .error _ => result first
    have known : ∀ a ∈ first :: others, value (image a) = result a := by
      intro a source
      simp only [value, each a source]
    refine ⟨xs.map value, ?_, ?_⟩
    · apply mapM_ok
      intro x member
      obtain ⟨a, source, rfl⟩ := List.mem_map.mp (perm.mem_iff.1 member)
      rw [known a source, each a source]
    · apply (perm.map value).trans
      apply List.Perm.of_eq
      rw [List.map_map]
      exact List.map_congr_left known

theorem mapM_ok_iff {ε α β : Type} (f : α → Except ε β) (xs : List α) :
    (∃ ys, xs.mapM f = .ok ys) ↔ ∀ x ∈ xs, ∃ y, f x = .ok y := by
  induction xs with
  | nil => simp [pure, Except.pure]
  | cons x rest ih =>
    rw [List.mapM_cons, List.forall_mem_cons, ← ih]
    cases here : f x with
    | error e => simp [bind, Except.bind]
    | ok y =>
      cases later : rest.mapM f with
      | error e => simp [bind, Except.bind]
      | ok ys => simp [bind, Except.bind, pure, Except.pure]

theorem forall₂_of_mapM {ε α β : Type} {f : α → Except ε β} {xs : List α} {ys : List β}
    (all : xs.mapM f = .ok ys) : List.Forall₂ (fun x y => f x = .ok y) xs ys := by
  induction xs generalizing ys with
  | nil =>
    cases all
    exact .nil
  | cons x rest ih =>
    rw [List.mapM_cons] at all
    obtain ⟨y, here, all⟩ := bind_ok all
    obtain ⟨others, later, all⟩ := bind_ok all
    cases all
    exact .cons here (ih later)

def Pipeline.since (p : Pipeline) : Int := (p.createdSince.map Instant.micros).getD 0

namespace Archive

def shown (archive : Archive) (zone : Zone) (row : Row) : Except QueryError Entry := do
  return withPlayerName archive.players (← entryOf zone row)

/-- The rows that a query converts. -/
def found (archive : Archive) (now : Instant) (p : Pipeline) : List Row :=
  p.rows (archive.store.scanSince p.since now.micros)

theorem query_eq (archive : Archive) (now : Instant) {session : Session} {p : Pipeline}
    (translated : Pipeline.ofSession session = .ok p) :
    archive.query now session = (archive.found now p).mapM (archive.shown session.zone) := by
  rw [query, translated]
  rfl

end Archive

namespace Pipeline

variable {p : Pipeline} {ds : List Document}

theorem mem_sortRows {order : SortOrder} {rows : List Row} {row : Row} :
    row ∈ sortRows order rows ↔ row ∈ rows := (List.mergeSort_perm _ _).mem_iff

theorem mem_rows_single (ungrouped : p.grouping = none) {row : Row} (member : row ∈ p.rows ds) :
    ∃ d ∈ ds, p.filter.admits d = true ∧ row = .single d := by
  have kept := mem_sortRows.1 (List.mem_of_mem_take member)
  simp only [ungrouped, List.mem_map, List.mem_filter] at kept
  obtain ⟨d, ⟨scanned, matching⟩, rfl⟩ := kept
  exact ⟨d, scanned, matching, rfl⟩

theorem mem_rows_group {zone : Zone} (grouped : p.grouping = some zone) {row : Row}
    (member : row ∈ p.rows ds) :
    ∃ g ∈ Group.ofDocuments zone (ds.filter fun d => p.filter.admits d), row = .group g := by
  have kept := mem_sortRows.1 (List.mem_of_mem_take member)
  simp only [grouped, List.mem_map] at kept
  obtain ⟨g, made, rfl⟩ := kept
  exact ⟨g, made, rfl⟩

end Pipeline
end AuditLog
