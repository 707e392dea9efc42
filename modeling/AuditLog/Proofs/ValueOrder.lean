import AuditLog.Proofs.IntegerRounding
import AuditLog.Proofs.RangeTests
import AuditLog.Proofs.RowOrder

/-! The order of values. Comparison from the other side is the reverse, and the comparable values that
tie are those that are loosely equal. An integer is rounded where it is compared with a double, but not
where it is compared with an integer, so a double may tie with two integers that differ. This is the
only way in which the order, or loose equality, is not transitive. -/
namespace AuditLog

namespace Double

variable {x y z : Double}

theorem atMost_rank :
    x.atMost y = true ↔ x.isNaN = false ∧ y.isNaN = false ∧ x.rank ≤ y.rank := by
  cases first : x.isNaN <;> cases second : y.isNaN <;>
    simp [atMost, compare?, first, second, Int.isLE_compare]

theorem same_rank : x.same y = true ↔ x.isNaN = false ∧ y.isNaN = false ∧ x.rank = y.rank := by
  cases first : x.isNaN <;> cases second : y.isNaN <;>
    simp [same, compare?, first, second]

theorem isSome_compare? :
    (x.compare? y).isSome = true ↔ x.isNaN = false ∧ y.isNaN = false := by
  cases first : x.isNaN <;> cases second : y.isNaN <;> simp [compare?, first, second]

theorem same_iff_atMost : x.same y = true ↔ x.atMost y = true ∧ y.atMost x = true := by
  rw [same_rank, atMost_rank, atMost_rank]
  constructor
  · rintro ⟨number, number', same⟩
    exact ⟨⟨number, number', same.le⟩, number', number, same.ge⟩
  · rintro ⟨⟨number, number', le⟩, -, -, ge⟩
    exact ⟨number, number', le_antisymm le ge⟩

theorem same_comm (x y : Double) : x.same y = y.same x := by
  rw [Bool.eq_iff_iff, same_iff_atMost, same_iff_atMost, and_comm]

theorem atMost_trans (first : x.atMost y = true) (second : y.atMost z = true) :
    x.atMost z = true := by
  obtain ⟨number, -, le⟩ := atMost_rank.mp first
  obtain ⟨-, number', le'⟩ := atMost_rank.mp second
  exact atMost_rank.mpr ⟨number, number', le.trans le'⟩

theorem same_trans (first : x.same y = true) (second : y.same z = true) : x.same z = true := by
  rw [same_iff_atMost] at *
  exact ⟨atMost_trans first.1 second.1, atMost_trans second.2 first.2⟩

theorem ofInt_atMost {i j : Int} (le : i ≤ j) : (ofInt i).atMost (ofInt j) = true :=
  atMost_rank.mpr ⟨isNaN_ofInt i, isNaN_ofInt j, rank_ofInt_mono le⟩

end Double

namespace Value

variable {a b c : Value}

/-- Numbers other than NaN are comparable with each other, and so are texts, instants and booleans. -/
inductive Comparable : Value → Value → Prop
  | numbers {a b : Value} {x y : Double} (first : a.number? = some x) (second : b.number? = some y)
      (proper : x.isNaN = false) (proper' : y.isNaN = false) : Comparable a b
  | texts (s t : String) : Comparable (.text s) (.text t)
  | instants (s t : Instant) : Comparable (.instant s) (.instant t)
  | bools (s t : Bool) : Comparable (.bool s) (.bool t)

/-- The first value is comparable with the second and does not come after it. -/
def atMost (a b : Value) : Bool := (a.compare? b).any (·.isLE)

/-- Two integers in falling order that round to the double between them. -/
inductive Blurs : Value → Value → Value → Prop
  | rounded {i k : Int64} {x : Double} (falls : k.toInt < i.toInt)
      (first : (Double.ofInt i.toInt).same x = true) (last : x.same (.ofInt k.toInt) = true) :
      Blurs (.int i) (.double x) (.int k)

theorem compare?_isSome_iff (a b : Value) : (a.compare? b).isSome = true ↔ Comparable a b := by
  constructor
  · have widened {a b : Value} {x y : Double} (first : a.number? = some x)
        (second : b.number? = some y) (present : (x.compare? y).isSome = true) :
        Comparable a b := by
      obtain ⟨proper, proper'⟩ := Double.isSome_compare?.mp present
      exact .numbers first second proper proper'
    fun_cases compare? a b with
    | case1 i j => exact fun _ => .numbers rfl rfl (Double.isNaN_ofInt _) (Double.isNaN_ofInt _)
    | case2 x y => exact widened rfl rfl
    | case3 i y => exact widened rfl rfl
    | case4 x j => exact widened rfl rfl
    | case5 s t => exact fun _ => .texts s t
    | case6 s t => exact fun _ => .instants s t
    | case7 s t => exact fun _ => .bools s t
    | case8 => nofun
  · rintro (⟨first, second, proper, proper'⟩ | _ | _ | _)
    · have present := Double.isSome_compare?.mpr ⟨proper, proper'⟩
      rw [number?_eq_some] at first second
      obtain rfl | ⟨i, rfl, rfl⟩ := first <;> obtain rfl | ⟨j, rfl, rfl⟩ := second
      · exact present
      · exact present
      · exact present
      · rfl
    · rfl
    · rfl
    · rfl

theorem compare?_reversed (a b : Value) : b.compare? a = (a.compare? b).map Ordering.swap := by
  cases a <;> cases b
  case int.int => exact congrArg some Std.OrientedCmp.eq_swap
  case text.text => exact congrArg some Std.OrientedCmp.eq_swap
  case instant.instant => exact congrArg some Std.OrientedCmp.eq_swap
  case bool.bool => exact congrArg some Std.OrientedCmp.eq_swap
  case double.double => exact (Double.compare?_swap ..).symm
  case int.double => exact (Double.compare?_swap ..).symm
  case double.int => exact (Double.compare?_swap ..).symm
  all_goals rfl

/-- A tie is a loose equality of comparable values. -/
theorem compare?_eq_iff (a b : Value) :
    a.compare? b = some .eq ↔ (a.compare? b).isSome = true ∧ a.looselyEquals b = true := by
  have double (x y : Double) :
      x.compare? y = some .eq ↔ (x.compare? y).isSome = true ∧ x.same y = true := by
    cases order : x.compare? y <;> simp [Double.same, order]
  fun_cases compare? a b with
  | case1 i j => simp [looselyEquals, same, Int64.toInt_inj]
  | case2 x y => exact double x y
  | case3 i y => exact double _ y
  | case4 x j =>
    rw [looselyEquals, Double.same_comm]
    exact double x _
  | case5 s t => simp [looselyEquals, same]
  | case6 s t =>
    have equal : s.compare t = .eq ↔ s = t :=
      ⟨Instant.eq_of_compare, fun same => same ▸ Std.ReflCmp.compare_self⟩
    simp [looselyEquals, same, equal]
  | case7 s t => simp [looselyEquals, same]
  | case8 => simp

/-- Values tie if each is at most the other. -/
theorem compare?_eq_iff_atMost :
    a.compare? b = some .eq ↔ a.atMost b = true ∧ b.atMost a = true := by
  rw [atMost, atMost, compare?_reversed a b]
  cases a.compare? b with
  | none => simp
  | some o => cases o <;> simp

theorem atMost_int {i j : Int64} : atMost (.int i) (.int j) = true ↔ i.toInt ≤ j.toInt :=
  Int.isLE_compare

theorem atMost_double {y : Double} :
    a.atMost (.double y) = true ↔ ∃ x, a.number? = some x ∧ x.atMost y = true := by
  cases a <;> simp [atMost, compare?, number?, Double.atMost]

theorem double_atMost {y : Double} :
    atMost (.double y) c = true ↔ ∃ z, c.number? = some z ∧ y.atMost z = true := by
  cases c <;> simp [atMost, compare?, number?, Double.atMost]

/-- Numbers in order as doubles are in order, unless they are integers. -/
theorem atMost_of_number {x y : Double} (first : a.number? = some x) (second : b.number? = some y)
    (le : x.atMost y = true) :
    a.atMost b = true ∨ ∃ i k, a = .int i ∧ b = .int k ∧ k.toInt < i.toInt := by
  rw [number?_eq_some] at first second
  obtain rfl | ⟨i, rfl, rfl⟩ := first <;> obtain rfl | ⟨k, rfl, rfl⟩ := second
  · exact .inl le
  · exact .inl le
  · exact .inl le
  · rcases le_or_gt i.toInt k.toInt with rises | falls
    · exact .inl (atMost_int.mpr rises)
    · exact .inr ⟨i, k, rfl, rfl, falls⟩

theorem Blurs.not_atMost (blurs : Blurs a b c) : ¬ a.atMost c = true := by
  obtain ⟨falls, -, -⟩ := blurs
  rw [atMost_int]
  exact falls.not_ge

theorem Blurs.not_looselyEquals (blurs : Blurs a b c) :
    ¬ a.looselyEquals c = true ∧ ¬ c.looselyEquals a = true := by
  obtain ⟨falls, -, -⟩ := blurs
  constructor
  · intro equal
    exact falls.ne (congrArg Int64.toInt (beq_iff_eq.mp equal)).symm
  · intro equal
    exact falls.ne (congrArg Int64.toInt (beq_iff_eq.mp equal))

/-- Two integers that are blurred are beyond the size up to which every integer is a double. -/
theorem Blurs.large (blurs : Blurs a b c) : ∃ i k, a = .int i ∧ c = .int k ∧
    2 ^ 53 ≤ i.toInt.natAbs ∧ 2 ^ 53 ≤ k.toInt.natAbs := by
  obtain ⟨falls, first, last⟩ := blurs
  obtain ⟨-, -, rank⟩ := Double.same_rank.mp (Double.same_trans first last)
  obtain ⟨last, first⟩ := Double.large_of_rank_eq falls rank.symm
  exact ⟨_, _, rfl, rfl, first, last⟩

/-- The order is transitive but where a double blurs two integers. -/
theorem atMost_trans (first : a.atMost b = true) (second : b.atMost c = true) :
    a.atMost c = true ↔ ¬ Blurs a b c := by
  refine ⟨fun le blurs => blurs.not_atMost le, fun clear => ?_⟩
  -- the value in the middle decides what kinds the other two may be
  cases b with
  | double y =>
    obtain ⟨x, number, below⟩ := atMost_double.mp first
    obtain ⟨z, number', above⟩ := double_atMost.mp second
    have widened := Double.atMost_trans below above
    rcases atMost_of_number number number' widened with le | ⟨i, k, rfl, rfl, falls⟩
    · exact le
    · cases number
      cases number'
      -- rounded, the greater integer is still not below the other, so all three tie as doubles
      have back := Double.ofInt_atMost falls.le
      refine absurd (Blurs.rounded falls ?_ ?_) clear
      · exact Double.same_iff_atMost.mpr ⟨below, Double.atMost_trans above back⟩
      · exact Double.same_iff_atMost.mpr ⟨above, Double.atMost_trans back below⟩
  | int j =>
    cases a with
    | int i =>
      have le := atMost_int.mp first
      cases c with
      | int k => exact atMost_int.mpr (le.trans (atMost_int.mp second))
      | double z => exact Double.atMost_trans (Double.ofInt_atMost le) second
      | _ => cases second
    | double x =>
      cases c with
      | int k => exact Double.atMost_trans first (Double.ofInt_atMost (atMost_int.mp second))
      | double z => exact Double.atMost_trans first second
      | _ => cases second
    | _ => cases first
  | text t =>
    cases a with
    | text s =>
      cases c with
      | text u =>
        have le : (compare s t).isLE = true := first
        have le' : (compare t u).isLE = true := second
        exact Std.TransCmp.isLE_trans le le'
      | _ => cases second
    | _ => cases first
  | instant t =>
    cases a with
    | instant s =>
      cases c with
      | instant u =>
        have le : (s.compare t).isLE = true := first
        have le' : (t.compare u).isLE = true := second
        exact Std.TransCmp.isLE_trans le le'
      | _ => cases second
    | _ => cases first
  | bool t =>
    cases a with
    | bool s =>
      cases c with
      | bool u =>
        have le : (compare s t).isLE = true := first
        have le' : (compare t u).isLE = true := second
        exact Std.TransCmp.isLE_trans le le'
      | _ => cases second
    | _ => cases first
  | _ => cases a <;> cases first

mutual
/-- Equality of one kind is transitive at every depth, although a NaN does not equal itself. -/
theorem same_trans (a : Value) {b c : Value} (first : a.same b = true) (second : b.same c = true) :
    a.same c = true := by
  cases a with
  | array as =>
    cases b with
    | array bs =>
      cases c with
      | array cs => exact sameItems_trans as first second
      | _ => cases second
    | _ => cases first
  | document as =>
    cases b with
    | document bs =>
      cases c with
      | document cs => exact sameFields_trans as first second
      | _ => cases second
    | _ => cases first
  | double x =>
    cases b with
    | double y =>
      cases c with
      | double z => exact Double.same_trans first second
      | _ => cases second
    | _ => cases first
  | null =>
    cases b with
    | null => exact second
    | _ => cases first
  | bool s =>
    cases b with
    | bool t =>
      obtain rfl : s = t := beq_iff_eq.mp first
      exact second
    | _ => cases first
  | int i =>
    cases b with
    | int j =>
      obtain rfl : i = j := beq_iff_eq.mp first
      exact second
    | _ => cases first
  | text s =>
    cases b with
    | text t =>
      obtain rfl : s = t := beq_iff_eq.mp first
      exact second
    | _ => cases first
  | instant s =>
    cases b with
    | instant t =>
      obtain rfl : s = t := beq_iff_eq.mp first
      exact second
    | _ => cases first
termination_by structural a
theorem sameItems_trans (as : List Value) {bs cs : List Value} (first : sameItems as bs = true)
    (second : sameItems bs cs = true) : sameItems as cs = true := by
  cases as with
  | nil =>
    cases bs with
    | nil => exact second
    | cons b bs => cases first
  | cons a as =>
    cases bs with
    | nil => cases first
    | cons b bs =>
      cases cs with
      | nil => cases second
      | cons c cs =>
        simp only [sameItems, Bool.and_eq_true] at *
        exact ⟨same_trans a first.1 second.1, sameItems_trans as first.2 second.2⟩
termination_by structural as
theorem sameFields_trans (as : List (String × Value)) {bs cs : List (String × Value)}
    (first : sameFields as bs = true) (second : sameFields bs cs = true) :
    sameFields as cs = true := by
  cases as with
  | nil =>
    cases bs with
    | nil => exact second
    | cons entry bs => cases first
  | cons entry as =>
    cases bs with
    | nil => cases first
    | cons entry' bs =>
      cases cs with
      | nil => cases second
      | cons entry'' cs =>
        obtain ⟨m, a⟩ := entry
        simp only [sameFields, Bool.and_eq_true, beq_iff_eq] at *
        obtain ⟨⟨name, value⟩, rest⟩ := first
        obtain ⟨⟨name', value'⟩, rest'⟩ := second
        exact ⟨⟨name.trans name', same_trans a value value'⟩, sameFields_trans as rest rest'⟩
termination_by structural as
end

theorem looselyEquals_of_same (equal : a.same b = true) : a.looselyEquals b = true := by
  cases a <;> cases b
  case int.double => cases equal
  case double.int => cases equal
  all_goals exact equal

/-- A value that is no number is loosely equal only to its like. -/
theorem looselyEquals_eq_same (other : a.number? = none ∨ b.number? = none) :
    a.looselyEquals b = a.same b := by
  cases a <;> cases b
  case int.double => rcases other with other | other <;> cases other
  case double.int => rcases other with other | other <;> cases other
  all_goals rfl

/-- A number ties with what it is loosely equal to. -/
theorem tie_of_number {y : Double} (number : b.number? = some y) :
    (a.looselyEquals b = true → a.compare? b = some .eq) ∧
      (b.looselyEquals a = true → b.compare? a = some .eq) := by
  have swapped {x y : Double} (equal : x.same y = true) : y.compare? x = some .eq :=
    beq_iff_eq.mp ((Double.same_comm y x).trans equal)
  obtain rfl | ⟨j, rfl, rfl⟩ := number?_eq_some.mp number
  · cases a with
    | double x => exact ⟨beq_iff_eq.mp, beq_iff_eq.mp⟩
    | int i => exact ⟨beq_iff_eq.mp, swapped⟩
    | _ => exact ⟨nofun, nofun⟩
  · cases a with
    | double x => exact ⟨swapped, beq_iff_eq.mp⟩
    | int i =>
      have exact {i j : Int64} (equal : looselyEquals (.int i) (.int j) = true) :
          compare? (.int i) (.int j) = some .eq := (compare?_eq_iff ..).mpr ⟨rfl, equal⟩
      exact ⟨exact, exact⟩
    | _ => exact ⟨nofun, nofun⟩

/-- Loose equality is transitive but where a double blurs two integers. -/
theorem looselyEquals_trans (first : a.looselyEquals b = true) (second : b.looselyEquals c = true) :
    a.looselyEquals c = true ↔ ¬ (Blurs a b c ∨ Blurs c b a) := by
  constructor
  · rintro equal (blurs | blurs)
    · exact blurs.not_looselyEquals.1 equal
    · exact blurs.not_looselyEquals.2 equal
  · intro clear
    obtain ⟨rising, falling⟩ := not_or.mp clear
    cases number : b.number? with
    | none =>
      rw [looselyEquals_eq_same (.inr number)] at first
      rw [looselyEquals_eq_same (.inl number)] at second
      exact looselyEquals_of_same (same_trans a first second)
    | some y =>
      obtain ⟨le, ge⟩ := compare?_eq_iff_atMost.mp ((tie_of_number number).1 first)
      obtain ⟨le', ge'⟩ := compare?_eq_iff_atMost.mp ((tie_of_number number).2 second)
      have tie : a.compare? c = some .eq :=
        compare?_eq_iff_atMost.mpr
          ⟨(atMost_trans le le').mpr rising, (atMost_trans ge' ge).mpr falling⟩
      exact ((compare?_eq_iff a c).mp tie).2

/-- Comparison from the other side is the reverse, ties are loose equalities, and both the order and
loose equality are transitive but for integers of at least `2 ^ 53` in size that a double blurs. -/
theorem comparison_coherent (a b c : Value) :
    ((a.compare? b).isSome = true ↔ Comparable a b) ∧
      b.compare? a = (a.compare? b).map Ordering.swap ∧
      (a.compare? b = some .eq ↔ Comparable a b ∧ a.looselyEquals b = true) ∧
      (a.atMost b = true → b.atMost c = true → (a.atMost c = true ↔ ¬ Blurs a b c)) ∧
      (a.looselyEquals b = true → b.looselyEquals c = true →
        (a.looselyEquals c = true ↔ ¬ (Blurs a b c ∨ Blurs c b a))) ∧
      (Blurs a b c → ∃ i k, a = .int i ∧ c = .int k ∧
        2 ^ 53 ≤ i.toInt.natAbs ∧ 2 ^ 53 ≤ k.toInt.natAbs) := by
  have comparable := compare?_isSome_iff a b
  refine ⟨comparable, compare?_reversed a b, ?_, atMost_trans, looselyEquals_trans, Blurs.large⟩
  rw [← comparable]
  exact compare?_eq_iff a b

/-- `2 ^ 53`, whose successor is the first integer that is no double. -/
def brink : Double := ⟨0x4340000000000000⟩

/-- The integer `2 ^ 53 + 1` is at most the double `2 ^ 53`, and that is at most the integer `2 ^ 53`. -/
theorem brink_blurs :
    brink.isNaN = false ∧
      atMost (.int 9007199254740993) (.double brink) = true ∧
      atMost (.double brink) (.int 9007199254740992) = true ∧
      atMost (.int 9007199254740993) (.int 9007199254740992) = false ∧
      looselyEquals (.int 9007199254740993) (.double brink) = true ∧
      looselyEquals (.double brink) (.int 9007199254740992) = true ∧
      looselyEquals (.int 9007199254740993) (.int 9007199254740992) = false := by
  decide +kernel

/-- Upwards the order passes through the double, but equality does not. -/
theorem brink_crossed_upwards :
    (atMost (.int 9007199254740992) (.double brink) = true ∧
        atMost (.double brink) (.int 9007199254740993) = true ∧
        atMost (.int 9007199254740992) (.int 9007199254740993) = true) ∧
      (looselyEquals (.int 9007199254740992) (.double brink) = true ∧
        looselyEquals (.double brink) (.int 9007199254740993) = true ∧
        ¬ looselyEquals (.int 9007199254740992) (.int 9007199254740993) = true) ∧
      Blurs (.int 9007199254740993) (.double brink) (.int 9007199254740992) ∧
      ∃ i k, Value.int 9007199254740993 = .int i ∧ Value.int 9007199254740992 = .int k ∧
        2 ^ 53 ≤ i.toInt.natAbs ∧ 2 ^ 53 ≤ k.toInt.natAbs := by
  have below : atMost (.int 9007199254740992) (.double brink) = true := by decide +kernel
  have above : atMost (.double brink) (.int 9007199254740993) = true := by decide +kernel
  have tie : looselyEquals (.int 9007199254740992) (.double brink) = true := by decide +kernel
  have tie' : looselyEquals (.double brink) (.int 9007199254740993) = true := by decide +kernel
  have blurs : Blurs (.int 9007199254740993) (.double brink) (.int 9007199254740992) :=
    .rounded (by decide) (by decide +kernel) (by decide +kernel)
  have rises : ¬ Blurs (.int 9007199254740992) (.double brink) (.int 9007199254740993) := by
    rintro ⟨falls, -, -⟩
    exact absurd falls (by decide)
  obtain ⟨-, -, -, order, equality, -⟩ :=
    comparison_coherent (.int 9007199254740992) (.double brink) (.int 9007199254740993)
  obtain ⟨-, -, -, -, -, large⟩ :=
    comparison_coherent (.int 9007199254740993) (.double brink) (.int 9007199254740992)
  refine ⟨⟨below, above, (order below above).mpr rises⟩, ⟨tie, tie', ?_⟩, blurs, large blurs⟩
  intro equal
  exact (equality tie tie').mp equal (.inr blurs)

end Value
end AuditLog
