import AuditLog.Proofs.Calendar
import AuditLog.Proofs.DisplayText
import AuditLog.Proofs.GroupedDays
import AuditLog.Proofs.LowerBound
import AuditLog.Proofs.RowOrder
import AuditLog.Proofs.SignedZeros

/-! Grouping is a partition. A document is counted in the group whose identifier has the text of
its own, so two groups never share a document, and each count, latest time and place follows from
the members; every step of the fold keeps this. Where no doubles are involved, equal texts mean
common fields that are read back as equal, and always equal days. -/
namespace AuditLog

namespace Instant

theorem isLE_latest (a b : Instant) :
    (a.compare (a.latest b)).isLE = true ∧ (b.compare (a.latest b)).isLE = true := by
  unfold latest
  split
  next less => exact ⟨Ordering.isLE_of_eq_lt (Ordering.isLT_iff_eq_lt.mp less), Std.ReflCmp.isLE_rfl⟩
  next less =>
    refine ⟨Std.ReflCmp.isLE_rfl, ?_⟩
    have not_lt : a.compare b ≠ .lt := by
      intro lt
      exact less (Ordering.isLT_iff_eq_lt.mpr lt)
    have swapped : b.compare a = (a.compare b).swap := Std.OrientedCmp.eq_swap
    rw [swapped]
    cases order : a.compare b with
    | lt => exact absurd order not_lt
    | _ => rfl

end Instant

theorem Date.year_small (n : Int) (low : -10 ^ 9 ≤ n) (high : n ≤ 10 ^ 9) :
    -2 ^ 63 ≤ (ofDays n).year ∧ (ofDays n).year < 2 ^ 63 := by
  have sum := Parts.days n
  have range := Parts.day_range n
  rw [year_length] at range
  have last : (Parts.ofDays n).day < 366 := by split at range <;> omega
  unfold daysBefore at sum
  rw [ofDays_eq]
  simp only
  split <;> split <;> omega

namespace Group

/-- What a field holds, an absent one as null. -/
def valueOf (d : Document) (name : String) : Value := (Table.find? name d).getD .null

theorem find?_commonOf (d : Document) {name : String} (common : name ∈ commonFields) :
    Table.find? name (commonOf d) = some (valueOf d name) := by
  simp only [commonFields, List.mem_cons, List.not_mem_nil, or_false] at common
  rcases common with rfl | rfl | rfl | rfl | rfl <;>
    simp [commonOf, commonFields, Table.ofPairs, Table.find?_insert, valueOf]

theorem find?_commonOf_none (d : Document) {name : String} (other : name ∉ commonFields) :
    Table.find? name (commonOf d) = none := by
  simp only [commonFields, List.mem_cons, List.not_mem_nil, or_false, not_or] at other
  simp [commonOf, commonFields, Table.ofPairs, Table.find?_insert, other, Table.find?]

theorem find?_id (g : Group) (name : String) : Table.find? name g.id =
    if name = "day" then some (.int (Int64.ofNat g.date.day))
    else if name = "month" then some (.int (Int64.ofNat g.date.month))
    else if name = "year" then some (.int (Int64.ofInt g.date.year))
    else Table.find? name g.common := by
  simp only [id, Table.find?_insert]

theorem ordered_id {g : Group} (ordered : Table.Ordered g.common) : Table.Ordered g.id :=
  ((ordered.insert _ _).insert _ _).insert _ _

theorem doubleFree_id {zone : Zone} {d : Document} {t : Instant}
    (free : ∀ name ∈ commonFields, (valueOf d name).DoubleFree) :
    Value.DoubleFreeFields (ofMember zone d t).id := by
  rw [Value.doubleFreeFields_iff]
  intro field member
  rcases Table.mem_insert member with rfl | member
  · trivial
  rcases Table.mem_insert member with rfl | member
  · trivial
  rcases Table.mem_insert member with rfl | member
  · trivial
  have found := Table.find?_of_mem (Table.ordered_ofPairs _) member
  by_cases common : field.1 ∈ commonFields
  · rw [← Option.some.inj ((find?_commonOf d common).symm.trans found)]
    exact free _ common
  · cases (find?_commonOf_none d common).symm.trans found

/-- Members whose common fields are read back as equal belong to one group, if they are of one day. -/
theorem key_congr {zone : Zone} {d e : Document} {t u : Instant}
    (free : ∀ name ∈ commonFields, (valueOf d name).DoubleFree)
    (free' : ∀ name ∈ commonFields, (valueOf e name).DoubleFree)
    (same : ∀ name ∈ commonFields, (valueOf d name).reread = (valueOf e name).reread)
    (day : zone.dateOf t = zone.dateOf u) : (ofMember zone d t).key = (ofMember zone e u).key := by
  have ordered (d : Document) (t : Instant) : Table.Ordered (ofMember zone d t).id :=
    ordered_id (Table.ordered_ofPairs _)
  have ids : Value.rereadFields (ofMember zone d t).id =
      Value.rereadFields (ofMember zone e u).id := by
    refine Table.ext_of_find? (Value.ordered_reread (ordered d t))
      (Value.ordered_reread (ordered e u)) ?_
    intro name
    have common : (Table.find? name (commonOf d)).map Value.reread =
        (Table.find? name (commonOf e)).map Value.reread := by
      by_cases common : name ∈ commonFields
      · rw [find?_commonOf d common, find?_commonOf e common]
        exact congrArg some (same name common)
      · rw [find?_commonOf_none d common, find?_commonOf_none e common]
    rw [Value.find?_reread, Value.find?_reread, find?_id, find?_id]
    simp only [ofMember, day, apply_ite (Option.map Value.reread), common]
  rw [key, key, Document.display, Document.display,
    ← Value.display_rereadFields _ (doubleFree_id free),
    ← Value.display_rereadFields _ (doubleFree_id free'), ids]

def Fits (date : Date) : Prop :=
  date.day < 2 ^ 63 ∧ date.month < 2 ^ 63 ∧ -2 ^ 63 ≤ date.year ∧ date.year < 2 ^ 63

theorem fits_dateOf (zone : Zone) (t : Instant) : Fits (zone.dateOf t) := by
  have west := zone.west
  have east := zone.east
  have first := t.first
  have last := t.last
  have small := Date.ofDays_small ((t.seconds + zone.offset) / 86400)
  have year := Date.year_small ((t.seconds + zone.offset) / 86400) (by omega) (by omega)
  unfold Fits Zone.dateOf
  omega

theorem Fits.eq {a b : Date} (fits : Fits a) (fits' : Fits b)
    (day : Int64.ofNat a.day = Int64.ofNat b.day)
    (month : Int64.ofNat a.month = Int64.ofNat b.month)
    (year : Int64.ofInt a.year = Int64.ofInt b.year) : a = b := by
  have natural {m n : Nat} (small : m < 2 ^ 63) (small' : n < 2 ^ 63)
      (same : Int64.ofNat m = Int64.ofNat n) : m = n := by
    have value := congrArg Int64.toInt same
    rw [Int64.toInt_ofNat_of_lt small, Int64.toInt_ofNat_of_lt small'] at value
    exact Int.ofNat_inj.mp value
  obtain ⟨days, months, low, high⟩ := fits
  obtain ⟨days', months', low', high'⟩ := fits'
  have years := congrArg Int64.toInt year
  rw [Int64.toInt_ofInt_of_le low high, Int64.toInt_ofInt_of_le low' high'] at years
  cases a
  cases b
  cases natural days days' day
  cases natural months months' month
  cases years
  rfl

/-- Groups of one text are of one day, and of common values read back as equal but for doubles in
them. -/
theorem eq_of_key {zone : Zone} {d e : Document} {t u : Instant}
    (same : (ofMember zone d t).key = (ofMember zone e u).key) :
    zone.dateOf t = zone.dateOf u ∧
      ∀ name ∈ commonFields, (valueOf d name).Agrees (valueOf e name) := by
  have agree := Value.fieldsAgree_of_display same
  have part {name : String} {i j : Int64}
      (found : Table.find? name (ofMember zone d t).id = some (.int i))
      (found' : Table.find? name (ofMember zone e u).id = some (.int j)) : i = j :=
    Value.int.inj (Value.find?_agrees agree found found' trivial trivial)
  constructor
  · exact (fits_dateOf zone t).eq (fits_dateOf zone u) (part (find?_id _ "day") (find?_id _ "day"))
      (part (find?_id _ "month") (find?_id _ "month")) (part (find?_id _ "year") (find?_id _ "year"))
  · intro name common
    have other : name ≠ "day" ∧ name ≠ "month" ∧ name ≠ "year" := by
      simp only [commonFields, List.mem_cons, List.not_mem_nil, or_false] at common
      rcases common with rfl | rfl | rfl | rfl | rfl <;> decide
    have found (d : Document) (t : Instant) :
        Table.find? name (ofMember zone d t).id = some (valueOf d name) := by
      rw [find?_id, if_neg other.1, if_neg other.2.1, if_neg other.2.2]
      exact find?_commonOf d common
    exact Value.find?_agrees agree (found d t) (found e u)

/-- The text of the group that a document belongs to. -/
def keyOf? (zone : Zone) (d : Document) : Option (List Char) :=
  (Document.instant? d "created").map fun created => (ofMember zone d created).key

def hasKey (zone : Zone) (text : List Char) (d : Document) : Bool := keyOf? zone d = some text

/-- The document is one of those that the group counts. -/
def counts (zone : Zone) (g : Group) (d : Document) : Bool := hasKey zone g.key d

theorem hasKey_iff {zone : Zone} {text : List Char} {d : Document} :
    hasKey zone text d = true ↔ keyOf? zone d = some text := decide_eq_true_iff

theorem keyOf?_dated {zone : Zone} {d : Document} {t : Instant}
    (created : Document.instant? d "created" = some t) :
    keyOf? zone d = some (ofMember zone d t).key := by
  rw [keyOf?, created, Option.map_some]

/-- The group after one more member. -/
def grow (g member : Group) : Group :=
  { g with count := g.count + 1, latest := g.latest.latest member.latest }

theorem key_grow (g member : Group) : (g.grow member).key = g.key := rfl

theorem join_cases (member : Group) (groups : List Group) :
    ((∀ g ∈ groups, g.key ≠ member.key) ∧ join member groups = groups ++ [member]) ∨
      ∃ before g after, groups = before ++ g :: after ∧ g.key = member.key ∧
        join member groups = before ++ g.grow member :: after := by
  induction groups with
  | nil => exact .inl ⟨by simp, rfl⟩
  | cons first rest ih =>
    by_cases same : first.key = member.key
    · exact .inr ⟨[], first, rest, rfl, same, if_pos same⟩
    · have later : join member (first :: rest) = first :: join member rest := if_neg same
      rcases ih with ⟨others, joined⟩ | ⟨before, g, after, parts, key, joined⟩
      · refine .inl ⟨?_, by rw [later, joined]; rfl⟩
        exact List.forall_mem_cons.mpr ⟨same, others⟩
      · exact .inr ⟨first :: before, g, after, by rw [parts]; rfl, key, by rw [later, joined]; rfl⟩

/-- The group sums up its members among the documents. -/
structure SumsUp (zone : Zone) (ds : List Document) (g : Group) : Prop where
  count : g.count = ds.countP (g.counts zone)
  attained : ∃ d ∈ ds, g.counts zone d = true ∧ Document.instant? d "created" = some g.latest
  bound : ∀ d ∈ ds, g.counts zone d = true → ∀ t, Document.instant? d "created" = some t →
    (t.compare g.latest).isLE = true

namespace SumsUp

variable {zone : Zone} {ds : List Document} {g : Group} {d : Document}

theorem skip (sums : SumsUp zone ds g) (other : g.counts zone d = false) :
    SumsUp zone (ds ++ [d]) g := by
  obtain ⟨e, member, counted, latest⟩ := sums.attained
  refine ⟨?_, ⟨e, List.mem_append_left _ member, counted, latest⟩, ?_⟩
  · rw [List.countP_append, ← sums.count]
    simp [other]
  · intro e member counted
    rcases List.mem_append.mp member with old | new
    · exact sums.bound e old counted
    · rw [List.mem_singleton.mp new, other] at counted
      cases counted

theorem grow (sums : SumsUp zone ds g) {t : Instant}
    (created : Document.instant? d "created" = some t)
    (same : g.key = (ofMember zone d t).key) :
    SumsUp zone (ds ++ [d]) (g.grow (ofMember zone d t)) := by
  have counted : g.counts zone d = true := by
    rw [counts, hasKey_iff, keyOf?_dated created, same]
  have unchanged : (g.grow (ofMember zone d t)).counts zone = g.counts zone := rfl
  obtain ⟨old, new⟩ := Instant.isLE_latest g.latest t
  refine ⟨?_, ?_, ?_⟩
  · rw [unchanged, List.countP_append, ← sums.count, List.countP_singleton, if_pos counted]
    rfl
  · rw [unchanged]
    rcases Instant.latest_cases g.latest t with stays | moves
    · obtain ⟨e, member, joined, latest⟩ := sums.attained
      exact ⟨e, List.mem_append_left _ member, joined, latest.trans (congrArg some stays.symm)⟩
    · exact ⟨d, by simp, counted, created.trans (congrArg some moves.symm)⟩
  · intro e member joined u time
    rcases List.mem_append.mp member with earlier | now
    · exact Std.TransCmp.isLE_trans (sums.bound e earlier joined u time) old
    · rw [List.mem_singleton.mp now, created] at time
      cases time
      exact new

theorem begin {t : Instant} (created : Document.instant? d "created" = some t)
    (fresh : ∀ e ∈ ds, (ofMember zone d t).counts zone e = false) :
    SumsUp zone (ds ++ [d]) (ofMember zone d t) := by
  have counted : (ofMember zone d t).counts zone d = true := by
    rw [counts, hasKey_iff, keyOf?_dated created]
  refine ⟨?_, ⟨d, by simp, counted, created⟩, ?_⟩
  · have none : ds.countP ((ofMember zone d t).counts zone) = 0 := by
      rw [List.countP_eq_zero]
      intro e member
      rw [fresh e member]
      exact Bool.false_ne_true
    rw [List.countP_append, none, List.countP_singleton, if_pos counted]
    rfl
  · intro e member joined u time
    rcases List.mem_append.mp member with earlier | now
    · rw [fresh e earlier] at joined
      cases joined
    · rw [List.mem_singleton.mp now, created] at time
      cases time
      exact Std.ReflCmp.isLE_rfl

end SumsUp

/-- The groups have texts of their own, each document with a time of creation is counted in one
of them, and they stand in the order of their first members. -/
structure Partition (zone : Zone) (ds : List Document) (groups : List Group) : Prop where
  apart : (groups.map key).Nodup
  covers : ∀ d ∈ ds, ∀ text, keyOf? zone d = some text → text ∈ groups.map key
  sums : ∀ g ∈ groups, SumsUp zone ds g
  order : (groups.map key).Pairwise fun text other =>
    ds.findIdx (hasKey zone text) < ds.findIdx (hasKey zone other)

theorem findIdx_append_of_mem {zone : Zone} {ds : List Document} {text : List Char}
    (known : ∃ d ∈ ds, hasKey zone text d = true) (d : Document) :
    (ds ++ [d]).findIdx (hasKey zone text) = ds.findIdx (hasKey zone text) ∧
      ds.findIdx (hasKey zone text) < ds.length := by
  have within := List.findIdx_lt_length.mpr known
  exact ⟨by rw [List.findIdx_append, if_pos within], within⟩

namespace Partition

variable {zone : Zone} {ds : List Document} {groups : List Group} {d : Document}

theorem known (partition : Partition zone ds groups) {text : List Char}
    (member : text ∈ groups.map key) : ∃ e ∈ ds, hasKey zone text e = true := by
  obtain ⟨g, within, rfl⟩ := List.mem_map.mp member
  obtain ⟨e, member, counted, -⟩ := (partition.sums g within).attained
  exact ⟨e, member, counted⟩

theorem order_append (partition : Partition zone ds groups) (d : Document) :
    (groups.map key).Pairwise fun text other =>
      (ds ++ [d]).findIdx (hasKey zone text) < (ds ++ [d]).findIdx (hasKey zone other) := by
  apply partition.order.imp_of_mem
  intro text other member member' less
  rw [(findIdx_append_of_mem (partition.known member) d).1,
    (findIdx_append_of_mem (partition.known member') d).1]
  exact less

theorem undated (partition : Partition zone ds groups)
    (missing : Document.instant? d "created" = none) : Partition zone (ds ++ [d]) groups := by
  have keyless : keyOf? zone d = none := by rw [keyOf?, missing, Option.map_none]
  refine ⟨partition.apart, ?_, ?_, partition.order_append d⟩
  · intro e member text own
    rcases List.mem_append.mp member with old | new
    · exact partition.covers e old text own
    · rw [List.mem_singleton.mp new, keyless] at own
      cases own
  · intro g member
    apply (partition.sums g member).skip
    simp [counts, hasKey, keyless]

theorem counts_other {t : Instant} (created : Document.instant? d "created" = some t) {g : Group}
    (other : g.key ≠ (ofMember zone d t).key) : g.counts zone d = false := by
  have own : keyOf? zone d = some (ofMember zone d t).key := keyOf?_dated created
  simp only [counts, hasKey, own, Option.some.injEq, decide_eq_false_iff_not]
  exact other.symm

theorem covers_append (partition : Partition zone ds groups) {t : Instant}
    (created : Document.instant? d "created" = some t) {others : List Group}
    (grown : groups.map key ⊆ others.map key)
    (here : (ofMember zone d t).key ∈ others.map key) :
    ∀ e ∈ ds ++ [d], ∀ text, keyOf? zone e = some text → text ∈ others.map key := by
  intro e member text known
  rcases List.mem_append.mp member with old | new
  · exact grown (partition.covers e old text known)
  · rw [List.mem_singleton.mp new, keyOf?_dated created] at known
    cases known
    exact here

/-- A member of no group begins one, after all others. -/
theorem begin (partition : Partition zone ds groups) {t : Instant}
    (created : Document.instant? d "created" = some t)
    (others : ∀ g ∈ groups, g.key ≠ (ofMember zone d t).key) :
    Partition zone (ds ++ [d]) (groups ++ [ofMember zone d t]) := by
  have fresh : (ofMember zone d t).key ∉ groups.map key := by
    intro member
    obtain ⟨g, within, same⟩ := List.mem_map.mp member
    exact others g within same
  have unseen : ∀ e ∈ ds, hasKey zone (ofMember zone d t).key e = false := by
    intro e member
    rw [← Bool.not_eq_true]
    intro seen
    exact fresh (partition.covers e member _ (hasKey_iff.mp seen))
  refine ⟨?_, partition.covers_append created (by simp) (by simp), ?_, ?_⟩
  · rw [List.map_append, List.map_singleton]
    apply List.nodup_append.mpr
    refine ⟨partition.apart, List.nodup_singleton _, ?_⟩
    intro text member other new same
    rw [List.mem_singleton.mp new] at same
    exact fresh (same ▸ member)
  · intro g member
    rcases List.mem_append.mp member with old | new
    · exact (partition.sums g old).skip (counts_other created (others g old))
    · rw [List.mem_singleton.mp new]
      exact SumsUp.begin created unseen
  · rw [List.map_append, List.map_singleton]
    apply List.pairwise_append.mpr
    refine ⟨partition.order_append d, List.pairwise_singleton _ _, ?_⟩
    intro text member other new
    obtain ⟨stays, within⟩ := findIdx_append_of_mem (partition.known member) d
    have absent : ds.findIdx (hasKey zone other) = ds.length := by
      rw [List.findIdx_eq_length]
      intro e member'
      rw [List.mem_singleton.mp new, unseen e member']
    rw [stays, List.findIdx_append, absent, if_neg (Nat.lt_irrefl _)]
    omega

/-- The group of the member's text grows, and all texts stay where they are. -/
theorem grow {before after : List Group} {g : Group}
    (partition : Partition zone ds (before ++ g :: after)) {t : Instant}
    (created : Document.instant? d "created" = some t)
    (same : g.key = (ofMember zone d t).key) :
    Partition zone (ds ++ [d]) (before ++ g.grow (ofMember zone d t) :: after) := by
  have texts : (before ++ g.grow (ofMember zone d t) :: after).map key =
      (before ++ g :: after).map key := by
    rw [List.map_append, List.map_append, List.map_cons, List.map_cons, key_grow]
  have others : ∀ g' ∈ before ++ after, g'.key ≠ (ofMember zone d t).key := by
    have apart := partition.apart
    rw [List.map_append, List.map_cons] at apart
    have missing := (List.nodup_middle.mp apart).notMem
    intro g' member equal
    rw [← List.map_append, same, ← equal] at missing
    exact missing (List.mem_map_of_mem member)
  refine ⟨texts ▸ partition.apart, partition.covers_append created ?_ ?_, ?_, ?_⟩
  · rw [texts]
    exact List.Subset.refl _
  · rw [texts, ← same]
    exact List.mem_map_of_mem (by simp)
  · intro g' member
    rcases List.mem_append.mp member with first | later
    · apply (partition.sums g' (by simp [first])).skip
      exact counts_other created (others g' (List.mem_append_left _ first))
    rcases List.mem_cons.mp later with rfl | last
    · exact (partition.sums g (by simp)).grow created same
    · apply (partition.sums g' (by simp [last])).skip
      exact counts_other created (others g' (List.mem_append_right _ last))
  · rw [texts]
    exact partition.order_append d

theorem join (partition : Partition zone ds groups) {t : Instant}
    (created : Document.instant? d "created" = some t) :
    Partition zone (ds ++ [d]) (Group.join (ofMember zone d t) groups) := by
  rcases join_cases (ofMember zone d t) groups with
    ⟨others, joined⟩ | ⟨before, g, after, rfl, same, joined⟩
  · rw [joined]
    exact partition.begin created others
  · rw [joined]
    exact partition.grow created same

end Partition

/-- Grouping partitions what it is given. -/
theorem partition_ofDocuments (zone : Zone) (ds : List Document) :
    Partition zone ds (ofDocuments zone ds) := by
  induction ds using List.reverseRecOn with
  | nil => refine ⟨List.nodup_nil, ?_, ?_, .nil⟩ <;> intro _ member <;> cases member
  | append_singleton ds d ih =>
    rw [ofDocuments, List.foldl_append, ← ofDocuments]
    simp only [List.foldl_cons, List.foldl_nil]
    split
    next created time => exact ih.join time
    next missing => exact ih.undated missing

theorem countP_counts {zone : Zone} {ds : List Document} {d : Document} {t : Instant}
    (member : d ∈ ds) (created : Document.instant? d "created" = some t) :
    (ofDocuments zone ds).countP (fun g => g.counts zone d) = 1 := by
  have partition := partition_ofDocuments zone ds
  have own : keyOf? zone d = some (ofMember zone d t).key := keyOf?_dated created
  have once : ((ofDocuments zone ds).map key).count (ofMember zone d t).key = 1 :=
    List.count_eq_one_of_mem partition.apart (partition.covers d member _ own)
  rw [List.count, List.countP_map] at once
  rw [← once]
  apply List.countP_congr
  intro g _
  rw [counts, hasKey_iff, own, Option.some.injEq, eq_comm]
  exact beq_iff_eq.symm

/-- Every document in one of the groups: the groups' counts are the documents. -/
theorem sum_countP {α β : Type} (r : α → β → Bool) (groups : List α) (ds : List β)
    (once : ∀ d ∈ ds, groups.countP (fun g => r g d) = 1) :
    (groups.map fun g => ds.countP (r g)).sum = ds.length := by
  induction ds with
  | nil => simp
  | cons d rest ih =>
    have later := ih fun e member => once e (List.mem_cons_of_mem _ member)
    have here : (groups.map fun g => if r g d = true then 1 else 0).sum =
        groups.countP fun g => r g d := by
      clear * -
      induction groups with
      | nil => rfl
      | cons g groups ih => rw [List.map_cons, List.sum_cons, ih, List.countP_cons, Nat.add_comm]
    calc (groups.map fun g => (d :: rest).countP (r g)).sum
        = (groups.map fun g => rest.countP (r g) + if r g d = true then 1 else 0).sum := by
          simp only [List.countP_cons]
      _ = rest.length + 1 := by rw [List.sum_map_add, later, here, once d List.mem_cons_self]

theorem sum_count (zone : Zone) {ds : List Document}
    (dated : ∀ d ∈ ds, (Document.instant? d "created").isSome) :
    ((ofDocuments zone ds).map count).sum = ds.length := by
  rw [← sum_countP (counts zone) (ofDocuments zone ds) ds]
  · congr 1
    apply List.map_congr_left
    intro g made
    exact ((partition_ofDocuments zone ds).sums g made).count
  · intro d member
    obtain ⟨t, created⟩ := Option.isSome_iff_exists.mp (dated d member)
    exact countP_counts member created

/-- Two documents without doubles in their common fields are counted together when these are
read back as equal and they are of one day. -/
theorem counted_together_iff (zone : Zone) {ds : List Document} {d e : Document} {t u : Instant}
    (member : d ∈ ds) (created : Document.instant? d "created" = some t)
    (created' : Document.instant? e "created" = some u)
    (free : ∀ name ∈ commonFields, (valueOf d name).DoubleFree)
    (free' : ∀ name ∈ commonFields, (valueOf e name).DoubleFree) :
    (∃ g ∈ ofDocuments zone ds, g.counts zone d = true ∧ g.counts zone e = true) ↔
      (∀ name ∈ commonFields, (valueOf d name).reread = (valueOf e name).reread) ∧
        zone.dateOf t = zone.dateOf u := by
  have own : keyOf? zone d = some (ofMember zone d t).key := keyOf?_dated created
  have own' : keyOf? zone e = some (ofMember zone e u).key := keyOf?_dated created'
  constructor
  · rintro ⟨g, -, counted, counted'⟩
    rw [counts, hasKey_iff, own, Option.some.injEq] at counted
    rw [counts, hasKey_iff, own', Option.some.injEq] at counted'
    obtain ⟨day, agree⟩ := eq_of_key (counted.trans counted'.symm)
    refine ⟨?_, day⟩
    intro name common
    exact agree name common (free name common) (free' name common)
  · rintro ⟨same, day⟩
    have alike := key_congr free free' same day
    have known := (partition_ofDocuments zone ds).covers d member _ own
    obtain ⟨g, within, text⟩ := List.mem_map.mp known
    refine ⟨g, within, ?_, ?_⟩
    · rw [counts, hasKey_iff, own, text]
    · rw [counts, hasKey_iff, own', text, alike]

/-- Grouping dated documents partitions them: each is counted once, and each row gives the number
and the latest time of those counted in it. Rows stand in the order of their first members under
identifiers of their own, equal at most where a zero has another sign. Documents without doubles in
their common fields share a row when these are read back as equal and they are of one day; the fields
are equal themselves unless they hold a leap second that does not end its minute. -/
theorem ofDocuments_partitions (zone : Zone) (ds : List Document)
    (dated : ∀ d ∈ ds, (Document.instant? d "created").isSome) :
    (∀ d ∈ ds, (ofDocuments zone ds).countP (fun g => g.counts zone d) = 1) ∧
    (∀ g ∈ ofDocuments zone ds,
      Table.find? "_id" g.document = some (.document g.id) ∧
      Table.find? "count" g.document =
        some (.int (Int64.ofNat (ds.countP (g.counts zone)))) ∧
      g.count = ds.countP (g.counts zone) ∧
      Table.find? "created" g.document = some (.instant g.latest) ∧
      (∃ d ∈ ds, g.counts zone d = true ∧ Document.instant? d "created" = some g.latest) ∧
      ∀ d ∈ ds, g.counts zone d = true → ∀ t, Document.instant? d "created" = some t →
        (t.compare g.latest).isLE = true) ∧
    ((ofDocuments zone ds).map count).sum = ds.length ∧
    (ofDocuments zone ds).Pairwise (fun g h =>
      ds.findIdx (g.counts zone) < ds.findIdx (h.counts zone)) ∧
    (ofDocuments zone ds).Pairwise (fun g h => g.id ≠ h.id ∧ g.key ≠ h.key ∧
      (Document.same g.id h.id = true → ∃ x ∈ Value.fieldDoubles g.id, x.isZero = true)) ∧
    ∀ d ∈ ds, ∀ e ∈ ds, ∀ t u, Document.instant? d "created" = some t →
      Document.instant? e "created" = some u →
      (∀ name ∈ commonFields, (valueOf d name).DoubleFree) →
      (∀ name ∈ commonFields, (valueOf e name).DoubleFree) →
      ((∃ g ∈ ofDocuments zone ds, g.counts zone d = true ∧ g.counts zone e = true) ↔
        (∀ name ∈ commonFields, (valueOf d name).reread = (valueOf e name).reread) ∧
          zone.dateOf t = zone.dateOf u) ∧
      ((∀ name ∈ commonFields, (valueOf d name).Regular) →
        (∀ name ∈ commonFields, (valueOf e name).Regular) →
        ((∃ g ∈ ofDocuments zone ds, g.counts zone d = true ∧ g.counts zone e = true) ↔
          (∀ name ∈ commonFields, valueOf d name = valueOf e name) ∧
            zone.dateOf t = zone.dateOf u)) := by
  have partition := partition_ofDocuments zone ds
  have order := List.pairwise_map.mp partition.order
  refine ⟨?_, ?_, sum_count zone dated, order, ?_, ?_⟩
  · intro d member
    obtain ⟨t, created⟩ := Option.isSome_iff_exists.mp (dated d member)
    exact countP_counts member created
  · intro g member
    obtain ⟨count, attained, bound⟩ := partition.sums g member
    refine ⟨?_, ?_, count, ?_, attained, bound⟩
    · simp [document, Table.ofPairs, Table.find?_insert]
    · simp [document, Table.ofPairs, Table.find?_insert, count]
    · simp [document, Table.ofPairs, Table.find?_insert]
  · apply (List.pairwise_map.mp partition.apart).imp
    intro g h other
    have apart : g.id ≠ h.id := by
      intro same
      exact other (congrArg Document.display same)
    refine ⟨apart, other, ?_⟩
    intro equal
    by_contra none
    apply apart
    apply Value.eq_of_sameFields g.id h.id equal
    intro x member
    rw [← Bool.not_eq_true]
    intro zero
    exact none ⟨x, member, zero⟩
  · intro d member e _ t u created created' free free'
    have together := counted_together_iff zone member created created' free free'
    refine ⟨together, ?_⟩
    intro regular regular'
    rw [together]
    apply and_congr_left'
    apply forall₂_congr
    intro name common
    rw [Value.reread_of_regular (free name common) (regular name common),
      Value.reread_of_regular (free' name common) (regular' name common)]

def evening : Instant := ⟨86399, 1250000000, by decide, by decide, by decide⟩

def night : Instant := .whole 84600 (by decide) (by decide)

def dayBefore : Instant := .whole 81000 (by decide) (by decide)

def broken (t : Instant) : Document :=
  [("created", .instant t), ("event", .text "break"), ("target", .array [.text "\"", .null])]

def anHourEast : Zone := Archive.hourEast

/-- An hour east of UTC the last hour of a day belongs to the next day. -/
theorem evening_counted_with_night :
    (∀ d ∈ [broken evening, broken dayBefore, broken night],
      (Document.instant? d "created").isSome) ∧
    (∃ g ∈ ofDocuments anHourEast [broken evening, broken dayBefore, broken night],
      g.counts anHourEast (broken evening) = true ∧ g.counts anHourEast (broken night) = true) ∧
    ¬ ∃ g ∈ ofDocuments anHourEast [broken evening, broken dayBefore, broken night],
      g.counts anHourEast (broken evening) = true ∧
        g.counts anHourEast (broken dayBefore) = true := by
  have dated : ∀ d ∈ [broken evening, broken dayBefore, broken night],
      (Document.instant? d "created").isSome := by decide
  have free (t : Instant) : ∀ name ∈ commonFields, (valueOf (broken t) name).DoubleFree := by
    simp [commonFields, valueOf, broken, Table.find?, Value.DoubleFree, Value.DoubleFreeItems]
  have alike (t u : Instant) :
      ∀ name ∈ commonFields, valueOf (broken t) name = valueOf (broken u) name := by
    simp [commonFields, valueOf, broken, Table.find?]
  have regular (t : Instant) : ∀ name ∈ commonFields, (valueOf (broken t) name).Regular := by
    simp [commonFields, valueOf, broken, Table.find?, Value.Regular, Value.RegularItems]
  have together := (ofDocuments_partitions anHourEast _ dated).2.2.2.2.2
  refine ⟨dated, ?_, ?_⟩
  · obtain ⟨-, shared⟩ := together _ (by simp) _ (by simp) evening night rfl rfl (free _) (free _)
    exact (shared (regular _) (regular _)).mpr ⟨alike _ _, by decide +kernel⟩
  · intro share
    obtain ⟨-, shared⟩ :=
      together _ (by simp) _ (by simp) evening dayBefore rfl rfl (free _) (free _)
    exact absurd ((shared (regular _) (regular _)).mp share).2 (by decide +kernel)

def causedBy (v : Value) : Document :=
  [("cause", v), ("created", .instant night), ("event", .text "break")]

/-- Zeros of two signs are equal, yet each has a row; and a leap second that does not end its minute
shares a row with the second after it. -/
theorem equal_ids_and_shared_row :
    (∃ g h, ofDocuments .utc
        [causedBy (.double (.zero false)), causedBy (.double (.zero true))] = [g, h] ∧
      Document.same g.id h.id = true) ∧
    ∃ g ∈ ofDocuments .utc [causedBy Value.leapAfterFour, causedBy Value.fifthSecond],
      g.counts .utc (causedBy Value.leapAfterFour) = true ∧
      g.counts .utc (causedBy Value.fifthSecond) = true ∧
      (valueOf (causedBy Value.leapAfterFour) "cause").same
        (valueOf (causedBy Value.fifthSecond) "cause") = false := by
  have created (v : Value) : Document.instant? (causedBy v) "created" = some night := rfl
  have apart : (ofMember .utc (causedBy (.double (.zero false))) night).key ≠
      (ofMember .utc (causedBy (.double (.zero true))) night).key := by decide +kernel
  have equal : Document.same (ofMember .utc (causedBy (.double (.zero false))) night).id
      (ofMember .utc (causedBy (.double (.zero true))) night).id = true := by decide +kernel
  have alike : (ofMember .utc (causedBy Value.leapAfterFour) night).key =
      (ofMember .utc (causedBy Value.fifthSecond) night).key := by decide +kernel
  have dated : ∀ v : Value, keyOf? .utc (causedBy v) = some (ofMember .utc (causedBy v) night).key :=
    fun v => keyOf?_dated (created v)
  constructor
  · refine ⟨_, _, ?_, equal⟩
    simp only [ofDocuments, List.foldl_cons, List.foldl_nil, created, join, if_neg apart]
  · refine ⟨(ofMember .utc (causedBy Value.leapAfterFour) night).grow
      (ofMember .utc (causedBy Value.fifthSecond) night), ?_, ?_, ?_, by decide +kernel⟩
    · simp only [ofDocuments, List.foldl_cons, List.foldl_nil, created, join, if_pos alike]
      exact List.mem_singleton_self _
    · rw [counts, hasKey_iff, key_grow, dated]
    · rw [counts, hasKey_iff, key_grow, dated, alike]

end Group
end AuditLog
