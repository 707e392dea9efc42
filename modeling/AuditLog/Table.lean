/-! Tables kept in strictly increasing order of their keys, as lists of pairs. Every
table that this library builds starts empty and grows by `insert`, so equal
contents have equal representations. Insertion and erasure change what is found
under their own key only, and keep the order. -/
namespace AuditLog

abbrev Table (κ α : Type) := List (κ × α)

namespace Table

variable {κ α : Type}

def find? [DecidableEq κ] (key : κ) : Table κ α → Option α
  | [] => none
  | (k, v) :: rest => if key = k then some v else find? key rest

def has [DecidableEq κ] (key : κ) (t : Table κ α) : Bool := (find? key t).isSome

/-- Puts the pair at its place, replacing the value of an equal key. -/
def insert [Ord κ] (key : κ) (value : α) : Table κ α → Table κ α
  | [] => [(key, value)]
  | (k, v) :: rest =>
    match compare key k with
    | .lt => (key, value) :: (k, v) :: rest
    | .eq => (key, value) :: rest
    | .gt => (k, v) :: insert key value rest

def erase [DecidableEq κ] (key : κ) (t : Table κ α) : Table κ α :=
  t.filter fun entry => entry.1 ≠ key

def ofPairs [Ord κ] (pairs : List (κ × α)) : Table κ α :=
  pairs.foldl (fun t pair => insert pair.1 pair.2 t) []

/-- Keys increase strictly. -/
def Ordered [Ord κ] (t : Table κ α) : Prop := t.Pairwise fun a b => compare a.1 b.1 = .lt

theorem find?_insert [Ord κ] [Std.LawfulEqOrd κ] [DecidableEq κ] (key k : κ) (v : α)
    (t : Table κ α) : find? k (insert key v t) = if k = key then some v else find? k t := by
  induction t with
  | nil => simp [insert, find?]
  | cons entry rest ih =>
    obtain ⟨k', v'⟩ := entry
    simp only [insert]
    split <;> rename_i h
    · simp [find?]
    · obtain rfl := Std.LawfulEqOrd.eq_of_compare h
      simp only [find?]
      split <;> rfl
    · simp only [find?, ih]
      have : key ≠ k' := by rintro rfl; simp at h
      grind

theorem find?_erase [DecidableEq κ] (key k : κ) (t : Table κ α) :
    find? k (erase key t) = if k = key then none else find? k t := by
  induction t with
  | nil => simp [erase, find?]
  | cons entry rest ih =>
    simp only [erase, List.filter_cons] at ih ⊢
    grind [find?]

theorem mem_insert [Ord κ] {key : κ} {v : α} {t : Table κ α} {entry : κ × α}
    (h : entry ∈ insert key v t) : entry = (key, v) ∨ entry ∈ t := by
  induction t with
  | nil => simpa [insert] using h
  | cons _ _ _ => grind [insert]

theorem Ordered.insert [Ord κ] [Std.LawfulEqOrd κ] [Std.TransOrd κ] {t : Table κ α}
    (h : Ordered t) (key : κ) (v : α) : Ordered (Table.insert key v t) := by
  induction t with
  | nil => simp [Table.insert, Ordered]
  | cons entry rest ih =>
    obtain ⟨hk, hr⟩ := List.pairwise_cons.1 h
    simp only [Table.insert]
    split <;> rename_i hc
    · refine List.pairwise_cons.2 ⟨fun e he => ?_, h⟩
      rcases List.mem_cons.1 he with rfl | he
      · exact hc
      · exact Std.TransCmp.lt_trans hc (hk e he)
    · obtain rfl := Std.LawfulEqOrd.eq_of_compare hc
      exact List.pairwise_cons.2 ⟨hk, hr⟩
    · refine List.pairwise_cons.2 ⟨fun e he => ?_, ih hr⟩
      rcases mem_insert he with rfl | he
      · exact Std.OrientedCmp.gt_iff_lt.1 hc
      · exact hk e he

theorem Ordered.erase [Ord κ] [DecidableEq κ] {t : Table κ α} (h : Ordered t) (key : κ) :
    Ordered (Table.erase key t) := List.Pairwise.filter _ h

end Table
end AuditLog
