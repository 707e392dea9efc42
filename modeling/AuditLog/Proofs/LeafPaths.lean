import AuditLog.Proofs.PathLaws
import AuditLog.Proofs.StorableRecords

/-! The leaf paths of a record, which lead to all in it that is no record again, in the order of their
segments. None of them leads on from another, so the leaves can be set one by one in any order; a
record without empty records inside is made of its leaves and nothing else. -/
namespace AuditLog

namespace Record

section Follow

variable {path : List String} {v w : Datum}

theorem follow_cons (name : String) (rest : List String) (v : Datum) :
    follow (name :: rest) v = (v.record?.bind (Table.find? name)).bind (follow rest) := by
  rw [follow, Option.bind_assoc]
  exact congrArg _ (funext (getAt_cons name rest))

theorem follow_append (path rest : List String) (v : Datum) :
    follow (path ++ rest) v = (follow path v).bind (follow rest) := by
  induction path generalizing v with
  | nil => rfl
  | cons name later ih =>
    rw [List.cons_append, follow_cons, follow_cons]
    cases v.record?.bind (Table.find? name) with
    | none => rfl
    | some w => exact ih w

theorem follow_leaf (leaf : v.record? = none) : follow path v = some w ↔ path = [] ∧ v = w := by
  cases path with
  | nil => simp [follow]
  | cons name rest => simp [follow, leaf]

theorem follow_hollow (leaf : w.record? = none) : follow path (.record []) ≠ some w := by
  intro found
  cases path with
  | nil =>
    cases found
    cases leaf
  | cons name rest =>
    rw [follow_record (List.cons_ne_nil name rest), getAt_empty] at found
    cases found

/-- A record is not at the end of the empty path, but what is no record is found from it all the same. -/
theorem get?_leaf {r : Record} {path : Path} (leaf : w.record? = none) :
    get? r path = some w ↔ follow path.segments (.record r) = some w := by
  obtain ⟨segments⟩ := path
  cases segments with
  | nil =>
    constructor
    · intro found
      cases found
    · intro same
      cases same
      cases leaf
  | cons name rest => rfl

theorem follow_of_get? {r : Record} {path : Path} (found : get? r path = some w) :
    path.segments ≠ [] ∧ follow path.segments (.record r) = some w := by
  obtain ⟨segments⟩ := path
  cases segments with
  | nil => cases found
  | cons name rest => exact ⟨List.cons_ne_nil name rest, found⟩

end Follow

end Record

namespace Datum

/-- Induction on a value as paths see it, where a list is a leaf. -/
@[elab_as_elim]
theorem pathInduction {motive : Datum → Prop} (v : Datum)
    (leaf : ∀ v : Datum, v.record? = none → motive v)
    (record : ∀ entries : List (String × Datum), (∀ entry ∈ entries, motive entry.2) →
      motive (.record entries)) : motive v := by
  induction v using inductionOn with
  | leaf v primitive =>
    refine leaf v ?_
    cases v with
    | record entries => cases primitive
    | _ => rfl
  | record entries ih => exact record entries ih
  | list items => exact leaf _ rfl

theorem InOrder.follow {path : List String} {v w : Datum} (inOrder : v.InOrder)
    (found : Record.follow path v = some w) : w.InOrder := by
  induction path generalizing v with
  | nil =>
    cases found
    exact inOrder
  | cons name rest ih =>
    rw [Record.follow_cons] at found
    obtain ⟨u, here, later⟩ := Option.bind_eq_some_iff.mp found
    cases v with
    | record entries => exact ih (inOrder.found here) later
    | _ => cases here

end Datum

namespace Record

/-! The leaf paths, entry by entry. -/

theorem leafPathsOf_eq (entries : List (String × Datum)) :
    leafPathsOf entries = entries.flatMap fun entry => pathsOf entry.1 entry.2 := by
  induction entries with
  | nil => rfl
  | cons entry rest ih => rw [leafPathsOf, ih, List.flatMap_cons]

theorem pathsOf_leaf {v : Datum} (leaf : v.record? = none) (name : String) :
    pathsOf name v = [[name]] := by
  cases v with
  | record entries => cases leaf
  | _ => rfl

theorem mem_pathsOf_leaf {v : Datum} (leaf : v.record? = none) {name : String}
    {path : List String} : path ∈ pathsOf name v ↔
      ∃ rest w, path = name :: rest ∧ follow rest v = some w ∧ w.record? = none := by
  simp only [pathsOf_leaf leaf, List.mem_singleton, follow_leaf leaf]
  constructor
  · rintro rfl
    exact ⟨[], v, rfl, ⟨rfl, rfl⟩, leaf⟩
  · rintro ⟨rest, w, rfl, ⟨rfl, -⟩, -⟩
    rfl

/-- The paths below a name are those that lead on from it to something that is no record. -/
theorem mem_pathsOf {v : Datum} (inOrder : v.InOrder) {name : String} {path : List String} :
    path ∈ pathsOf name v ↔
      ∃ rest w, path = name :: rest ∧ follow rest v = some w ∧ w.record? = none := by
  induction v using Datum.pathInduction generalizing name path with
  | leaf v leaf => exact mem_pathsOf_leaf leaf
  | record entries ih =>
    obtain ⟨ordered, each⟩ := (Datum.inOrder_entrywise entries).mp inOrder
    rw [pathsOf, leafPathsOf_eq, List.mem_map]
    constructor
    · rintro ⟨below, listed, rfl⟩
      obtain ⟨entry, member, inside⟩ := List.mem_flatMap.mp listed
      obtain ⟨rest, w, rfl, found, leaf⟩ := (ih entry member (each entry member)).mp inside
      have here : Table.find? entry.1 entries = some entry.2 := Table.find?_of_mem ordered member
      refine ⟨entry.1 :: rest, w, rfl, ?_, leaf⟩
      rw [follow_cons, Datum.record?, Option.bind_some, here]
      exact found
    · rintro ⟨rest, w, rfl, found, leaf⟩
      cases rest with
      | nil =>
        cases found
        cases leaf
      | cons next later =>
        rw [follow_cons] at found
        obtain ⟨u, here, found⟩ := Option.bind_eq_some_iff.mp found
        have member := Table.mem_of_find? here
        have inside : next :: later ∈ pathsOf next u :=
          (ih (next, u) member (each _ member)).mpr ⟨later, w, rfl, found, leaf⟩
        exact ⟨next :: later, List.mem_flatMap.mpr ⟨(next, u), member, inside⟩, rfl⟩

theorem compare_cons_self (name : String) (path other : List String) :
    compare (name :: path) (name :: other) = compare path other := by
  rw [List.compare_cons_cons, Std.ReflOrd.compare_self]
  rfl

theorem head_of_mem_pathsOf {name : String} {v : Datum} {path : List String}
    (member : path ∈ pathsOf name v) : ∃ rest, path = name :: rest := by
  cases v with
  | record entries =>
    obtain ⟨rest, -, rfl⟩ := List.mem_map.mp member
    exact ⟨rest, rfl⟩
  | _ => exact ⟨[], List.mem_singleton.mp member⟩

/-- Below one name the order is that of the rests, and otherwise that of the names. -/
theorem pathsOf_sorted {v : Datum} (inOrder : v.InOrder) (name : String) :
    (pathsOf name v).Pairwise fun a b => compare a b = .lt := by
  induction v using Datum.pathInduction generalizing name with
  | leaf v leaf =>
    rw [pathsOf_leaf leaf]
    exact List.pairwise_singleton _ _
  | record entries ih =>
    obtain ⟨ordered, each⟩ := (Datum.inOrder_entrywise entries).mp inOrder
    rw [pathsOf, List.pairwise_map, leafPathsOf_eq]
    simp only [compare_cons_self]
    refine List.pairwise_flatMap.mpr ⟨?_, ordered.imp ?_⟩
    · intro entry member
      exact ih entry member (each entry member) entry.1
    · intro entry other less path inside path' inside'
      obtain ⟨rest, rfl⟩ := head_of_mem_pathsOf inside
      obtain ⟨rest', rfl⟩ := head_of_mem_pathsOf inside'
      rw [List.compare_cons_cons, less]
      rfl

section Leaves

variable {r : Record} {path other : Path}

theorem mem_leafPaths (inOrder : (Datum.record r).InOrder) :
    path ∈ leafPaths r ↔ ∃ w, get? r path = some w ∧ w.record? = none := by
  -- As if the record stood under a name itself.
  have below : path.segments ∈ leafPathsOf r ↔ "" :: path.segments ∈ pathsOf "" (.record r) := by
    rw [pathsOf, List.mem_map_of_injective List.cons_injective]
  have listed : path ∈ leafPaths r ↔ path.segments ∈ leafPathsOf r := by
    obtain ⟨segments⟩ := path
    simp [leafPaths]
  rw [listed, below, mem_pathsOf inOrder]
  constructor
  · rintro ⟨rest, w, same, found, leaf⟩
    cases same
    exact ⟨w, (get?_leaf leaf).mpr found, leaf⟩
  · rintro ⟨w, found, leaf⟩
    exact ⟨path.segments, w, rfl, (get?_leaf leaf).mp found, leaf⟩

theorem leafPaths_sorted (inOrder : (Datum.record r).InOrder) :
    (leafPaths r).Pairwise fun a b => compare a b = .lt := by
  have below := pathsOf_sorted inOrder ""
  rw [pathsOf, List.pairwise_map] at below
  simp only [compare_cons_self] at below
  exact List.pairwise_map.mpr below

/-- Nothing stands beyond a leaf. -/
theorem leaf_of_leads (inOrder : (Datum.record r).InOrder) (first : path ∈ leafPaths r)
    (second : other ∈ leafPaths r) (leads : path.segments <+: other.segments) : path = other := by
  obtain ⟨w, found, leaf⟩ := (mem_leafPaths inOrder).mp first
  obtain ⟨w', found', -⟩ := (mem_leafPaths inOrder).mp second
  obtain ⟨rest, beyond⟩ := leads
  have there := (follow_of_get? found').2
  rw [← beyond, follow_append, (follow_of_get? found).2, Option.bind_some, follow_leaf leaf] at there
  rw [there.1, List.append_nil] at beyond
  exact congrArg Path.mk beyond

theorem leafPaths_apart (inOrder : (Datum.record r).InOrder) :
    (leafPaths r).Pairwise fun a b => ¬ OneWay a b := by
  refine (leafPaths_sorted inOrder).imp_of_mem ?_
  intro a b first second less oneWay
  have same : a = b := by
    rcases oneWay with leads | leads
    · exact leaf_of_leads inOrder first second leads
    · exact (leaf_of_leads inOrder second first leads).symm
  subst same
  change compare a.segments a.segments = .lt at less
  rw [Std.ReflOrd.compare_self] at less
  cases less

end Leaves

/-! A record without empty records inside is determined by its leaves. -/

/-- No record inside is empty; the record itself may be. -/
def Filled (v : Datum) : Prop := ∀ path, path ≠ [] → follow path v ≠ some (.record [])

theorem Filled.inside {v w : Datum} (filled : Filled v) (path : List String)
    (found : follow path v = some w) : Filled w := by
  intro rest further hollow
  refine filled (path ++ rest) (List.append_ne_nil_of_right_ne_nil path further) ?_
  rw [follow_append, found]
  exact hollow

theorem exists_leaf {v : Datum} (filled : Filled v) (present : v ≠ .record []) :
    ∃ path w, follow path v = some w ∧ w.record? = none := by
  induction v using Datum.pathInduction with
  | leaf v leaf => exact ⟨[], v, rfl, leaf⟩
  | record entries ih =>
    cases entries with
    | nil => exact absurd rfl present
    | cons entry rest =>
      have found : follow [entry.1] (.record (entry :: rest)) = some entry.2 := if_pos rfl
      have stands : entry.2 ≠ .record [] := by
        intro hollow
        exact filled [entry.1] (List.cons_ne_nil _ _) (hollow ▸ found)
      obtain ⟨path, w, leads, leaf⟩ :=
        ih entry List.mem_cons_self (filled.inside [entry.1] found) stands
      refine ⟨[entry.1] ++ path, w, ?_, leaf⟩
      rw [follow_append, found]
      exact leads

/-- The same leaves are found in both. -/
def SameLeaves (v v' : Datum) : Prop :=
  ∀ path w, w.record? = none → (follow path v = some w ↔ follow path v' = some w)

theorem SameLeaves.inside {v v' w w' : Datum} (same : SameLeaves v v') (path : List String)
    (found : follow path v = some w) (found' : follow path v' = some w') : SameLeaves w w' := by
  intro rest x leaf
  have beyond := same (path ++ rest) x leaf
  rwa [follow_append, follow_append, found, found'] at beyond

theorem eq_of_leaf {v v' : Datum} (same : SameLeaves v v') (leaf : v.record? = none) : v = v' :=
  (Option.some.inj ((same [] v leaf).mp rfl)).symm

/-- Where something stands in one of them and has leaves, something stands in the other. -/
theorem exists_of_sameLeaves {v v' w : Datum} (same : SameLeaves v v') (filled : Filled v)
    {path : List String} (present : path ≠ []) (found : follow path v = some w) :
    ∃ w', follow path v' = some w' := by
  have stands : w ≠ .record [] := fun hollow => filled path present (hollow ▸ found)
  obtain ⟨rest, x, leads, leaf⟩ := exists_leaf (filled.inside path found) stands
  have beyond := (same (path ++ rest) x leaf).mp (by rw [follow_append, found]; exact leads)
  rw [follow_append] at beyond
  obtain ⟨w', there, -⟩ := Option.bind_eq_some_iff.mp beyond
  exact ⟨w', there⟩

theorem eq_of_sameLeaves {v v' : Datum} (inOrder : v.InOrder) (inOrder' : v'.InOrder)
    (filled : Filled v) (filled' : Filled v') (same : SameLeaves v v') : v = v' := by
  induction v using Datum.pathInduction generalizing v' with
  | leaf v leaf => exact eq_of_leaf same leaf
  | record entries ih =>
    -- A name taken in one is taken in the other, since what stands there has a leaf.
    have flipped : SameLeaves v' (.record entries) := fun path w leaf => (same path w leaf).symm
    cases v' with
    | record entries' =>
      have carried (name : String) (w : Datum) (found : Table.find? name entries = some w) :
          Table.find? name entries' = some w := by
        obtain ⟨w', there⟩ :=
          exists_of_sameLeaves same filled (List.cons_ne_nil name []) found
        have equal : w = w' := ih (name, w) (Table.mem_of_find? found) (inOrder.found found)
          (inOrder'.found there) (filled.inside [name] found) (filled'.inside [name] there)
          (same.inside [name] found there)
        exact equal ▸ there
      refine congrArg Datum.record (Table.ext_of_find? inOrder.1 inOrder'.1 ?_)
      intro name
      cases found : Table.find? name entries with
      | some w => exact (carried name w found).symm
      | none =>
        cases there : Table.find? name entries' with
        | none => rfl
        | some w' =>
          obtain ⟨w, back⟩ :=
            exists_of_sameLeaves flipped filled' (List.cons_ne_nil name []) there
          exact absurd (found.symm.trans back) (Option.some_ne_none w).symm
    | _ => exact (eq_of_leaf flipped rfl).symm

/-! Setting the leaves one by one. -/

/-- The paths with what they lead to. -/
def entriesAt (r : Record) (order : List Path) : List (Path × Datum) :=
  order.filterMap fun path => (get? r path).map (Prod.mk path)

theorem mem_entriesAt {r : Record} {order : List Path} {entry : Path × Datum} :
    entry ∈ entriesAt r order ↔ entry.1 ∈ order ∧ get? r entry.1 = some entry.2 := by
  obtain ⟨path, w⟩ := entry
  simp only [entriesAt, List.mem_filterMap, Option.map_eq_some_iff, Prod.mk.injEq]
  constructor
  · rintro ⟨path, listed, w, found, rfl, rfl⟩
    exact ⟨listed, found⟩
  · rintro ⟨listed, found⟩
    exact ⟨path, listed, w, found, rfl, rfl⟩

section Rebuilt

variable {r : Record} {order : List Path} {entry : Path × Datum}

theorem entriesAt_apart (inOrder : (Datum.record r).InOrder) (perm : order.Perm (leafPaths r)) :
    (entriesAt r order).Pairwise fun a b => ¬ OneWay b.1 a.1 := by
  have symmetric : ∀ {a b : Path}, ¬ OneWay a b → ¬ OneWay b a := fun apart back => apart back.symm
  have apart := (perm.pairwise_iff symmetric).mpr (leafPaths_apart inOrder)
  refine List.pairwise_filterMap.mpr (apart.imp ?_)
  intro a b apart first found second found'
  obtain ⟨v, -, rfl⟩ := Option.map_eq_some_iff.mp found
  obtain ⟨w, -, rfl⟩ := Option.map_eq_some_iff.mp found'
  exact symmetric apart

theorem leaf_of_mem (inOrder : (Datum.record r).InOrder) (perm : order.Perm (leafPaths r))
    (member : entry ∈ entriesAt r order) : entry.2.record? = none := by
  obtain ⟨listed, found⟩ := mem_entriesAt.mp member
  obtain ⟨w, found', leaf⟩ := (mem_leafPaths inOrder).mp (perm.mem_iff.mp listed)
  cases found.symm.trans found'
  exact leaf

/-- No later step touches what an earlier one has set. -/
theorem get?_rebuilt (inOrder : (Datum.record r).InOrder) (perm : order.Perm (leafPaths r))
    (member : entry ∈ entriesAt r order) :
    get? (setAll [] (entriesAt r order)) entry.1 = some entry.2 := by
  have apart := entriesAt_apart inOrder perm
  have present := (follow_of_get? (mem_entriesAt.mp member).2).1
  obtain ⟨before, later, split⟩ := List.append_of_mem member
  rw [split] at apart ⊢
  obtain ⟨-, tail, -⟩ := List.pairwise_append.mp apart
  have others := (List.pairwise_cons.mp tail).1
  rw [setAll_append]
  change get? (setAll (set _ entry.1 entry.2) later) entry.1 = some entry.2
  rw [get?_setAll_apart fun e after _ => others e after]
  exact get?_set_self _ present

/-- What is found afterwards is a leaf or lies on the way to one. -/
theorem found_rebuilt (inOrder : (Datum.record r).InOrder) (perm : order.Perm (leafPaths r))
    {path : Path} {w : Datum} (found : get? (setAll [] (entriesAt r order)) path = some w) :
    ∃ entry ∈ entriesAt r order, ∃ rest, path.segments ++ rest = entry.1.segments ∧
      follow rest w = some entry.2 := by
  have leaves : ∀ entry ∈ entriesAt r order, entry.2.record? = none :=
    fun entry member => leaf_of_mem inOrder perm member
  have stands : (get? (setAll [] (entriesAt r order)) path).isSome := by
    rw [found]
    rfl
  obtain ⟨entry, member, rest, leads⟩ := get?_setAll_isSome leaves stands
  have there := (follow_of_get? (get?_rebuilt inOrder perm member)).2
  rw [← leads, follow_append, (follow_of_get? found).2] at there
  exact ⟨entry, member, rest, leads, there⟩

theorem sameLeaves_rebuilt (inOrder : (Datum.record r).InOrder) (perm : order.Perm (leafPaths r)) :
    SameLeaves (.record (setAll [] (entriesAt r order))) (.record r) := by
  intro segments w leaf
  have look (data : Record) :
      follow segments (.record data) = some w ↔ get? data ⟨segments⟩ = some w := (get?_leaf leaf).symm
  rw [look, look]
  constructor
  · intro found
    obtain ⟨⟨path, v⟩, member, rest, leads, there⟩ := found_rebuilt inOrder perm found
    obtain ⟨rfl, rfl⟩ := (follow_leaf leaf).mp there
    rw [List.append_nil] at leads
    have same : Path.mk segments = path := congrArg Path.mk leads
    exact same ▸ (mem_entriesAt.mp member).2
  · intro found
    have listed : Path.mk segments ∈ order :=
      perm.mem_iff.mpr ((mem_leafPaths inOrder).mpr ⟨w, found, leaf⟩)
    have member : (Path.mk segments, w) ∈ entriesAt r order := mem_entriesAt.mpr ⟨listed, found⟩
    exact get?_rebuilt inOrder perm member

theorem filled_rebuilt (inOrder : (Datum.record r).InOrder) (perm : order.Perm (leafPaths r)) :
    Filled (.record (setAll [] (entriesAt r order))) := by
  intro segments present hollow
  have found : get? (setAll [] (entriesAt r order)) ⟨segments⟩ = some (.record []) := by
    rw [get?, ← follow_record present]
    exact hollow
  obtain ⟨entry, member, rest, -, there⟩ := found_rebuilt inOrder perm found
  exact follow_hollow (leaf_of_mem inOrder perm member) there

theorem inOrder_rebuilt (inOrder : (Datum.record r).InOrder) (order : List Path) :
    (Datum.record (setAll [] (entriesAt r order))).InOrder := by
  refine Datum.inOrder_entrywise.setAll Datum.inOrder_entrywise.empty ?_
  intro entry member
  exact inOrder.follow (follow_of_get? (mem_entriesAt.mp member).2).2

end Rebuilt

/-- The leaf paths of a record are in order, and lead to exactly what is no record again. Set on an empty
record in whatever order, the leaves make up the record, unless some record inside is empty. -/
theorem leafPaths_exact {r : Record} (inOrder : (Datum.record r).InOrder) :
    (leafPaths r).Pairwise (fun a b => compare a b = .lt) ∧
      (∀ path, path ∈ leafPaths r ↔ ∃ v, get? r path = some v ∧ v.record? = none) ∧
      ∀ order : List Path, order.Perm (leafPaths r) →
        (setAll [] (entriesAt r order) = r ↔ ∀ path, get? r path ≠ some (.record [])) := by
  refine ⟨leafPaths_sorted inOrder, fun path => mem_leafPaths inOrder, ?_⟩
  intro order perm
  have rebuilt := filled_rebuilt inOrder perm
  constructor
  · intro same path hollow
    rw [same] at rebuilt
    obtain ⟨present, found⟩ := follow_of_get? hollow
    exact rebuilt path.segments present found
  · intro stands
    have filled : Filled (.record r) := by
      intro segments present hollow
      rw [follow_record present] at hollow
      exact stands ⟨segments⟩ hollow
    have same := eq_of_sameLeaves (inOrder_rebuilt inOrder order) inOrder rebuilt filled
      (sameLeaves_rebuilt inOrder perm)
    exact Datum.record.inj same

/-- A point of a text, with its two coordinates. -/
def cursor : Record := [("at", .record [("x", .int 1), ("z", .int 3)]), ("text", .text "key")]

/-- From its leaves, the last one first, the record is made again, so that nothing in it is empty. -/
theorem cursor_filled :
    let order : List Path := [.of "text", .parse "at.z", .parse "at.x"]
    (Datum.record cursor).InOrder ∧ order.Perm (leafPaths cursor) ∧
      setAll [] (entriesAt cursor order) = cursor ∧
      ∀ path, get? cursor path ≠ some (.record []) := by
  intro order
  have inOrder : (Datum.record cursor).InOrder :=
    ⟨by decide, ⟨⟨by decide, trivial, trivial, trivial⟩, trivial, trivial⟩⟩
  have perm : order.Perm (leafPaths cursor) := by decide
  have rebuilt : setAll [] (entriesAt cursor order) = cursor := rfl
  exact ⟨inOrder, perm, rebuilt, ((leafPaths_exact inOrder).2.2 order perm).mp rebuilt⟩

end Record
end AuditLog
