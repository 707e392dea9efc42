import AuditLog.Table

/-! Tables in order are determined by what is found in them, and keep their order when entries
are dropped or their values are changed. -/
namespace AuditLog.Table

variable {κ α β : Type}

instance [Ord κ] (t : Table κ α) : Decidable (Ordered t) :=
  inferInstanceAs (Decidable (t.Pairwise fun a b => compare a.1 b.1 = .lt))

section Build

variable [Ord κ]

theorem insert_last {t : Table κ α} {key : κ} (v : α)
    (last : ∀ entry ∈ t, compare key entry.1 = .gt) : insert key v t = t ++ [(key, v)] := by
  induction t with
  | nil => rfl
  | cons entry rest ih =>
    have here := last entry (by simp)
    have later : insert key v rest = rest ++ [(key, v)] := by
      apply ih
      intro e member
      exact last e (by simp [member])
    simp only [insert, here, List.cons_append, later]

theorem insert_perm {t : Table κ α} {key : κ} (v : α)
    (fresh : ∀ entry ∈ t, compare key entry.1 ≠ .eq) : (insert key v t).Perm ((key, v) :: t) := by
  induction t with
  | nil => exact .refl _
  | cons entry rest ih =>
    obtain ⟨k, w⟩ := entry
    have here := fresh (k, w) (by simp)
    simp only [insert]
    split
    next => exact .refl _
    next same => exact absurd same here
    next =>
      have later : (insert key v rest).Perm ((key, v) :: rest) := by
        apply ih
        intro e member
        exact fresh e (by simp [member])
      exact (later.cons (k, w)).trans (.swap _ _ _)

theorem ofPairs_ordered [Std.OrientedOrd κ] {t : Table κ α} (ordered : Ordered t) :
    ofPairs t = t := by
  have grow (rest taken : Table κ α) (ordered : Ordered (taken ++ rest)) :
      rest.foldl (fun t pair => insert pair.1 pair.2 t) taken = taken ++ rest := by
    induction rest generalizing taken with
    | nil => simp
    | cons entry rest ih =>
      have before := (List.pairwise_append.mp ordered).2.2
      have last : insert entry.1 entry.2 taken = taken ++ [entry] := by
        apply insert_last
        intro e member
        exact Std.OrientedCmp.gt_iff_lt.mpr (before e member entry (by simp))
      rw [List.foldl_cons, last, ih (taken ++ [entry]) (by simpa using ordered)]
      simp
  exact grow t [] ordered

theorem Ordered.head_ne [Std.ReflOrd κ] {key : κ} {v : α} {rest : Table κ α} (ordered : Ordered ((key, v) :: rest)) :
    ∀ entry ∈ rest, entry.1 ≠ key := by
  intro entry member same
  have less := (List.pairwise_cons.mp ordered).1 entry member
  rw [same, Std.ReflOrd.compare_self] at less
  cases less

end Build

theorem ordered_ofPairs [Ord κ] [Std.LawfulEqOrd κ] [Std.TransOrd κ] (pairs : List (κ × α)) :
    Ordered (ofPairs pairs) := by
  have grow (taken : Table κ α) (ordered : Ordered taken) :
      Ordered (pairs.foldl (fun t pair => insert pair.1 pair.2 t) taken) := by
    induction pairs generalizing taken with
    | nil => exact ordered
    | cons pair rest ih => exact ih _ (ordered.insert pair.1 pair.2)
  exact grow [] List.Pairwise.nil

section Find

variable [DecidableEq κ]

theorem mem_of_find? {t : Table κ α} {key : κ} {v : α} (found : find? key t = some v) :
    (key, v) ∈ t := by
  induction t with
  | nil => cases found
  | cons entry rest ih =>
    obtain ⟨k, w⟩ := entry
    simp only [find?] at found
    split at found
    next same =>
      cases found
      simp [same]
    next => exact List.mem_cons_of_mem _ (ih found)

theorem find?_none {t : Table κ α} {key : κ} (absent : ∀ entry ∈ t, entry.1 ≠ key) :
    find? key t = none := by
  induction t with
  | nil => rfl
  | cons entry rest ih =>
    have here := absent entry (by simp)
    rw [find?, if_neg (Ne.symm here)]
    apply ih
    intro e member
    exact absent e (by simp [member])

variable [Ord κ] [Std.ReflOrd κ]

theorem find?_of_mem {t : Table κ α} (ordered : Ordered t) {key : κ} {v : α}
    (member : (key, v) ∈ t) : find? key t = some v := by
  induction t with
  | nil => cases member
  | cons entry rest ih =>
    obtain ⟨k, w⟩ := entry
    rcases List.mem_cons.mp member with same | later
    · cases same
      simp [find?]
    · have other := ordered.head_ne (key, v) later
      rw [find?, if_neg other]
      exact ih (List.pairwise_cons.mp ordered).2 later

theorem find?_filterMap {t : Table κ α} (ordered : Ordered t) (f : κ → α → Option β) (key : κ) :
    find? key (t.filterMap fun entry => (f entry.1 entry.2).map fun v => (entry.1, v)) =
      (find? key t).bind (f key) := by
  induction t with
  | nil => rfl
  | cons entry rest ih =>
    obtain ⟨k, v⟩ := entry
    have later := ih (List.pairwise_cons.mp ordered).2
    by_cases same : key = k
    · subst same
      cases image : f key v with
      | none =>
        have absent := find?_none ordered.head_ne
        simp only [List.filterMap_cons, image, Option.map_none, later, absent, find?]
        simp [image]
      | some w => simp [image, find?]
    · cases image : f k v with
      | none => simp only [List.filterMap_cons, image, Option.map_none, later, find?, if_neg same]
      | some w =>
        simp only [List.filterMap_cons, image, Option.map_some, find?, later, if_neg same]

variable [Std.TransOrd κ]

theorem ext_of_find? {t u : Table κ α} (ordered : Ordered t)
    (ordered' : Ordered u) (same : ∀ key, find? key t = find? key u) : t = u := by
  induction t generalizing u with
  | nil =>
    cases u with
    | nil => rfl
    | cons entry rest =>
      have found := same entry.1
      simp [find?] at found
  | cons entry rest ih =>
    obtain ⟨k, v⟩ := entry
    cases u with
    | nil =>
      have found := same k
      simp [find?] at found
    | cons entry' rest' =>
      obtain ⟨k', v'⟩ := entry'
      have first := mem_of_find? ((same k).symm.trans (find?_of_mem ordered (v := v) List.mem_cons_self))
      have second := mem_of_find? ((same k').trans (find?_of_mem ordered' (v := v') List.mem_cons_self))
      have head : (k, v) = (k', v') := by
        rcases List.mem_cons.mp first with equal | later
        · exact equal
        rcases List.mem_cons.mp second with equal | later'
        · exact equal.symm
        have less := (List.pairwise_cons.mp ordered').1 _ later
        have more := (List.pairwise_cons.mp ordered).1 _ later'
        have loop := Std.TransCmp.lt_trans less more
        rw [Std.ReflOrd.compare_self] at loop
        cases loop
      cases head
      congr 1
      apply ih (List.pairwise_cons.mp ordered).2 (List.pairwise_cons.mp ordered').2
      intro key
      by_cases equal : key = k
      · subst equal
        rw [find?_none ordered.head_ne, find?_none ordered'.head_ne]
      · have found := same key
        rwa [find?, find?, if_neg equal, if_neg equal] at found

theorem erase_absent {t : Table κ α} (ordered : Ordered t) {key : κ}
    (absent : find? key t = none) : erase key t = t := by
  refine ext_of_find? (ordered.erase key) ordered ?_
  intro k
  rw [find?_erase]
  split
  next same => rw [same, absent]
  next => rfl

end Find

section Change

variable [DecidableEq κ] [Ord κ] [Std.LawfulEqOrd κ] [Std.TransOrd κ]

theorem erase_insert {t : Table κ α} (ordered : Ordered t) {key : κ} (v : α)
    (absent : find? key t = none) : erase key (insert key v t) = t := by
  refine ext_of_find? ((ordered.insert key v).erase key) ordered ?_
  intro k
  rw [find?_erase, find?_insert]
  split
  next same => rw [same, absent]
  next => rfl

theorem insert_found {t : Table κ α} (ordered : Ordered t) {key : κ} {v : α}
    (found : find? key t = some v) : insert key v t = t := by
  refine ext_of_find? (ordered.insert key v) ordered ?_
  intro k
  rw [find?_insert]
  split
  next same => rw [same, found]
  next => rfl

theorem insert_insert {t : Table κ α} (ordered : Ordered t) (key : κ) (v w : α) :
    insert key v (insert key w t) = insert key v t := by
  refine ext_of_find? ((ordered.insert key w).insert key v) (ordered.insert key v) ?_
  intro k
  simp only [find?_insert]
  split <;> rfl

end Change

theorem Ordered.filterMap [Ord κ] {t : Table κ α} (ordered : Ordered t) (f : κ → α → Option β) :
    Ordered (t.filterMap fun entry => (f entry.1 entry.2).map fun v => (entry.1, v)) := by
  refine List.pairwise_filterMap.mpr (List.Pairwise.imp ?_ ordered)
  intro a b less a' first b' second
  obtain ⟨v, -, rfl⟩ := Option.map_eq_some_iff.mp first
  obtain ⟨w, -, rfl⟩ := Option.map_eq_some_iff.mp second
  exact less

end AuditLog.Table
