import AuditLog.Field
import AuditLog.Filter

/-! What conditions say of a document, read from the tree alone, and that a translated filter
admits exactly the documents of which all its conditions hold. The reading names neither
tests nor filters; an integer is compared with a double after it has been rounded to one. -/
namespace AuditLog

theorem bind_ok {ε α β : Type} {first : Except ε α} {next : α → Except ε β} {result : β}
    (ok : (first >>= next) = .ok result) : ∃ value, first = .ok value ∧ next value = .ok result := by
  cases first with
  | error e => simp [bind, Except.bind] at ok
  | ok value => exact ⟨value, rfl, ok⟩

instance : Std.LawfulEqOrd Path where
  compare_self := Std.ReflOrd.compare_self (α := List String)
  eq_of_compare := by
    intro a b equal
    cases a
    cases b
    exact congrArg Path.mk (Std.LawfulEqOrd.eq_of_compare (α := List String) equal)

/-- The value equals `operand`, or it is an array and one of its elements does. -/
def Value.Shows (v operand : Value) : Prop :=
  v.looselyEquals operand = true ∨
    ∃ items, v = .array items ∧ ∃ e ∈ items, e.looselyEquals operand = true

def EqualTo (field : Option Value) (operand : Datum) : Prop :=
  ∃ v w, field = some v ∧ Value.ofDatum? operand = some w ∧ v.Shows w

/-- The field is present, comparable with `bound`, and stands on one side of it. -/
def StandsOn (side : Ordering → Prop) (field : Option Value) (bound : Value) : Prop :=
  ∃ v o, field = some v ∧ v.compare? bound = some o ∧ side o

def StandsOnDatum (side : Ordering → Prop) (field : Option Value) (operand : Datum) : Prop :=
  ∃ w, Value.ofDatum? operand = some w ∧ StandsOn side field w

namespace Bound

/-- The field keeps to the upper side of a lower end. -/
def HoldsBelow (field : Option Value) : Bound → Prop
  | .inclusive x => StandsOn (· ≠ .lt) field (.double x)
  | .exclusive x => StandsOn (· = .gt) field (.double x)
  | .unbounded => True

/-- The field keeps to the lower side of an upper end. -/
def HoldsAbove (field : Option Value) : Bound → Prop
  | .inclusive x => StandsOn (· ≠ .gt) field (.double x)
  | .exclusive x => StandsOn (· = .lt) field (.double x)
  | .unbounded => True

end Bound

/-- What a leaf says of the value of its field, if the field has one. A list under a rule other
than INCLUDES asks that the field equal no item. -/
def Leaf.Holds (leaf : Leaf) (field : Option Value) : Prop :=
  match leaf.rule, leaf.operand with
  | .includes, .list items => ∃ v ∈ items, EqualTo field v
  | _, .list items => ∀ v ∈ items, ¬ EqualTo field v
  | .exists, .scalar v => v = .bool field.isSome
  | .equals, .scalar v => EqualTo field v
  | .atLeast, .scalar v => StandsOnDatum (· ≠ .lt) field v
  | .atMost, .scalar v => StandsOnDatum (· ≠ .gt) field v
  | .between, .range r => r.lower.HoldsBelow field ∧ r.upper.HoldsAbove field
  | _, _ => False

namespace Condition

mutual
/-- What a condition says of a document. An OR group without children restricts nothing. -/
def Holds (d : Document) : Condition → Prop
  | .leaf l => l.Holds (Document.get? d l.field)
  | .group .all children => AllHold d children
  | .group .any children => children = [] ∨ SomeHold d children
def AllHold (d : Document) : List Condition → Prop
  | [] => True
  | c :: rest => Holds d c ∧ AllHold d rest
def SomeHold (d : Document) : List Condition → Prop
  | [] => False
  | c :: rest => Holds d c ∨ SomeHold d rest
end

theorem allHold_iff (d : Document) (conditions : List Condition) :
    AllHold d conditions ↔ ∀ c ∈ conditions, Holds d c := by
  induction conditions with
  | nil => simp [AllHold]
  | cons c rest ih => simp [AllHold, ih]

end Condition

/-! The tests of a leaf. -/

namespace Test

theorem anyElement_iff (p : Value → Bool) (v : Value) :
    anyElement p v = true ↔ p v = true ∨ ∃ items, v = .array items ∧ ∃ e ∈ items, p e = true := by
  cases v with
  | array items =>
    simp only [anyElement, Bool.or_eq_true, List.any_eq_true, Value.array.injEq, exists_eq_left']
    exact or_comm
  | _ => simp [anyElement]

theorem isAmong_iff (values : List Value) (field : Option Value) :
    isAmong values field = true ↔ ∃ v, field = some v ∧ ∃ w ∈ values, v.Shows w := by
  cases field with
  | none => simp [isAmong]
  | some v =>
    simp only [isAmong, anyElement_iff, List.any_eq_true, Value.Shows, Option.some.injEq,
      exists_eq_left']
    constructor
    · rintro (⟨w, member, equal⟩ | ⟨items, shape, e, inside, w, member, equal⟩)
      · exact ⟨w, member, .inl equal⟩
      · exact ⟨w, member, .inr ⟨items, shape, e, inside, equal⟩⟩
    · rintro ⟨w, member, equal | ⟨items, shape, e, inside, equal⟩⟩
      · exact .inl ⟨w, member, equal⟩
      · exact .inr ⟨items, shape, e, inside, w, member, equal⟩

theorem onSide_iff (field : Option Value) (bound : Value) (side : Ordering → Bool) :
    onSide field bound side = true ↔ StandsOn (side · = true) field bound := by
  cases field with
  | none => simp [onSide, StandsOn]
  | some v => simp [onSide, StandsOn, Option.any_eq_true]

theorem matches_lower (field : Option Value) (bound : Value) :
    (matches? field (.atLeast bound) = true ↔ StandsOn (· ≠ .lt) field bound) ∧
      (matches? field (.above bound) = true ↔ StandsOn (· = .gt) field bound) := by
  simp only [matches?, onSide_iff, Ordering.isGE_iff_ne_lt, Ordering.isGT_iff_eq_gt, and_self]

theorem matches_upper (field : Option Value) (bound : Value) :
    (matches? field (.atMost bound) = true ↔ StandsOn (· ≠ .gt) field bound) ∧
      (matches? field (.below bound) = true ↔ StandsOn (· = .lt) field bound) := by
  simp only [matches?, onSide_iff, Ordering.isLE_iff_ne_gt, Ordering.isLT_iff_eq_lt, and_self]

end Test

namespace Filter

theorem stored_ok {leaf : Leaf} {v : Datum} {w : Value} (ok : stored? leaf v = .ok w) :
    Value.ofDatum? v = some w := by
  unfold stored? at ok
  split at ok
  next encoded => simp_all
  next => simp at ok

theorem isAmong_stored {leaf : Leaf} {items : List Datum} {values : List Value}
    (ok : items.mapM (stored? leaf) = .ok values) (field : Option Value) :
    Test.isAmong values field = true ↔ ∃ v ∈ items, EqualTo field v := by
  induction items generalizing values with
  | nil =>
    simp only [List.mapM_nil, pure, Except.pure, Except.ok.injEq] at ok
    subst ok
    simp [Test.isAmong_iff]
  | cons v rest ih =>
    rw [List.mapM_cons] at ok
    obtain ⟨w, hw, ok⟩ := bind_ok ok
    obtain ⟨ws, hws, ok⟩ := bind_ok ok
    obtain rfl := Except.ok.inj ok
    have tail := ih hws
    have head : EqualTo field v ↔ ∃ x, field = some x ∧ x.Shows w := by
      simp [EqualTo, stored_ok hw]
    simp only [Test.isAmong_iff, List.mem_cons, exists_eq_or_imp, head, ← tail] at *
    constructor
    · rintro ⟨x, present, first | later⟩
      · exact .inl ⟨x, present, first⟩
      · exact .inr ⟨x, present, later⟩
    · rintro (⟨x, present, first⟩ | ⟨x, present, later⟩)
      · exact ⟨x, present, .inl first⟩
      · exact ⟨x, present, .inr later⟩

private theorem list_holds {leaf : Leaf} {items : List Datum} {values : List Value}
    (shape : leaf.operand = .list items) (stored : items.mapM (stored? leaf) = .ok values)
    (field : Option Value) :
    Test.matches? field (if leaf.rule = .includes then .among values else .notAmong values) = true ↔
      leaf.Holds field := by
  have among := isAmong_stored stored field
  have rejected : (!Test.isAmong values field) = true ↔ ∀ v ∈ items, ¬ EqualTo field v := by
    rw [Bool.not_eq_true', ← Bool.not_eq_true, among]
    simp
  unfold Leaf.Holds
  rw [shape]
  cases rule : leaf.rule <;> simp only [reduceCtorEq, if_true, if_false, Test.matches?]
  case includes => exact among
  all_goals exact rejected

private theorem ends_hold (r : NumberRange) (field : Option Value) :
    ((endTests r.lower .atLeast .above ++ endTests r.upper .atMost .below).all
        (Test.matches? field) = true) ↔
      r.lower.HoldsBelow field ∧ r.upper.HoldsAbove field := by
  rw [List.all_append, Bool.and_eq_true]
  apply and_congr
  · cases r.lower <;> simp [endTests, Bound.HoldsBelow, Test.matches_lower]
  · cases r.upper <;> simp [endTests, Bound.HoldsAbove, Test.matches_upper]

theorem leafTests_holds {leaf : Leaf} {tests : List Test} (ok : leafTests leaf = .ok tests)
    (field : Option Value) :
    tests.all (Test.matches? field) = true ↔ leaf.Holds field := by
  have fits := leaf.fits
  unfold leafTests at ok
  cases shape : leaf.operand with
  | list items =>
    simp only [shape] at ok
    obtain ⟨values, stored, ok⟩ := bind_ok ok
    obtain rfl := Except.ok.inj ok
    simpa using list_holds shape stored field
  | range r =>
    simp only [shape, Except.ok.injEq] at ok fits
    subst ok
    unfold Leaf.Holds
    rw [shape]
    cases rule : leaf.rule <;> simp only [rule, Operand.fits, Bool.false_eq_true] at fits
    exact ends_hold r field
  | scalar v =>
    simp only [shape] at ok fits
    unfold Leaf.Holds
    rw [shape]
    cases rule : leaf.rule <;> simp only [rule] at ok fits
    case includes => simp [Operand.fits] at fits
    case between => simp [Operand.fits] at fits
    case «exists» =>
      simp only [Except.ok.injEq] at ok
      subst ok
      cases v <;> simp only [Operand.fits, Bool.false_eq_true] at fits
      simp only [List.all_cons, List.all_nil, Bool.and_true, Test.matches?, Datum.bool?,
        Option.getD_some, beq_iff_eq, Datum.bool.injEq]
      exact eq_comm
    all_goals
      obtain ⟨w, hw, ok⟩ := bind_ok ok
      obtain rfl := Except.ok.inj ok
      have stored := stored_ok hw
    case equals =>
      simp [Test.matches?, Test.isAmong_iff, EqualTo, stored]
    case atLeast =>
      simp [Test.matches_lower, StandsOnDatum, stored]
    case atMost =>
      simp [Test.matches_upper, StandsOnDatum, stored]

/-! Gathering tests by field keeps their conjunction. -/

def fieldsPass (d : Document) (fields : Table Path (List Test)) : Bool :=
  fields.all fun entry => entry.2.all (Test.matches? (Document.get? d entry.1))

theorem admits_mk (d : Document) (fields : Table Path (List Test)) (anyOf : List (List Filter)) :
    admits d (mk fields anyOf) = (fieldsPass d fields && allScopes d anyOf) := by
  simp only [admits, fieldsPass]

theorem admits_eq (d : Document) (f : Filter) :
    f.admits d = (fieldsPass d f.fields && allScopes d f.anyOf) := by
  cases f
  exact admits_mk ..

theorem admits_everything (d : Document) : everything.admits d = true := by
  simp [everything, admits, allScopes]

theorem find?_pass (d : Document) (fields : Table Path (List Test)) (field : Path)
    (pass : fieldsPass d fields = true) :
    ((Table.find? field fields).getD []).all (Test.matches? (Document.get? d field)) = true := by
  induction fields with
  | nil => simp [Table.find?]
  | cons entry rest ih =>
    simp only [fieldsPass, List.all_cons, Bool.and_eq_true] at pass
    by_cases same : field = entry.1
    · subst same
      simpa only [Table.find?, if_true, Option.getD_some] using pass.1
    · simpa only [Table.find?, same, if_false] using ih pass.2

/-- The first entry of a field is the one that `find?` sees and that `insert` replaces, so the
tests it had are kept and the new ones join them. -/
theorem fieldsPass_addTests (d : Document) (fields : Table Path (List Test)) (field : Path)
    (tests : List Test) :
    fieldsPass d (addTests fields field tests) =
      (fieldsPass d fields && tests.all (Test.matches? (Document.get? d field))) := by
  have known := find?_pass d fields field
  unfold addTests
  induction fields with
  | nil => simp [fieldsPass, Table.insert, Table.find?]
  | cons entry rest ih =>
    obtain ⟨key, old⟩ := entry
    by_cases same : field = key
    · subst same
      have equal : compare field field = .eq := Std.ReflOrd.compare_self
      simp only [fieldsPass, Table.insert, Table.find?, equal, if_true, Option.getD_some,
        List.all_cons, List.all_append]
      ac_rfl
    · cases order : compare field key with
      | lt =>
        -- The new entry stands in front and repeats tests that a later entry holds.
        simp only [Table.insert, order]
        rw [fieldsPass, List.all_cons, ← fieldsPass, List.all_append]
        cases pass : fieldsPass d ((key, old) :: rest) with
        | false => simp
        | true => simp [known pass]
      | eq => exact absurd (Std.LawfulEqOrd.eq_of_compare order) same
      | gt =>
        have later := ih (find?_pass d rest field)
        simp only [fieldsPass] at later
        simp only [fieldsPass, Table.insert, Table.find?, same, order, if_false, List.all_cons,
          later, Bool.and_assoc]

theorem admits_add (d : Document) (f : Filter) (field : Path) (test : Test) :
    (f.add field test).admits d =
      (f.admits d && test.matches? (Document.get? d field)) := by
  rw [add, admits_mk, admits_eq d f, fieldsPass_addTests]
  simp only [List.all_cons, List.all_nil, Bool.and_true]
  ac_rfl

theorem allScopes_append (d : Document) (scopes others : List (List Filter)) :
    allScopes d (scopes ++ others) = (allScopes d scopes && allScopes d others) := by
  induction scopes with
  | nil => simp [allScopes]
  | cons branches rest ih => simp only [List.cons_append, allScopes, ih, Bool.and_assoc]

private theorem fieldsPass_fold (d : Document) (added fields : Table Path (List Test)) :
    fieldsPass d (added.foldl (fun fields entry => addTests fields entry.1 entry.2) fields) =
      (fieldsPass d fields && fieldsPass d added) := by
  induction added generalizing fields with
  | nil => simp [fieldsPass]
  | cons entry rest ih =>
    rw [List.foldl_cons, ih, fieldsPass_addTests]
    simp only [fieldsPass, List.all_cons, Bool.and_assoc]

theorem admits_merge (d : Document) (f g : Filter) :
    (f.merge g).admits d = (f.admits d && g.admits d) := by
  rw [merge, admits_mk, fieldsPass_fold, allScopes_append, admits_eq d f, admits_eq d g]
  ac_rfl

/-! Translation, by induction on the tree. -/

private theorem admits_gathered (d : Document) (field : Path) (tests : List Test) (g : Filter) :
    (tests.foldl (fun f test => f.add field test) g).admits d =
      (g.admits d && tests.all (Test.matches? (Document.get? d field))) := by
  induction tests generalizing g with
  | nil => simp
  | cons test rest ih => rw [List.foldl_cons, ih, admits_add, List.all_cons, Bool.and_assoc]

theorem ofLeaf_holds {leaf : Leaf} {f : Filter} (ok : ofLeaf leaf = .ok f) (d : Document) :
    f.admits d = true ↔ leaf.Holds (Document.get? d leaf.field) := by
  obtain ⟨tests, translated, ok⟩ := bind_ok ok
  obtain rfl := Except.ok.inj ok
  rw [admits_gathered, admits_everything, Bool.true_and]
  exact leafTests_holds translated _

mutual
theorem ofCondition_holds (d : Document) : ∀ (c : Condition) (f : Filter), ofCondition c = .ok f →
    (f.admits d = true ↔ c.Holds d)
  | .leaf l, f, ok => by
    rw [Condition.Holds]
    exact ofLeaf_holds (by simpa only [ofCondition] using ok) d
  | .group .all children, f, ok => by
    rw [Condition.Holds, conjunction_holds d children everything f (by simpa only [ofCondition] using ok)]
    simp [admits_everything]
  | .group .any children, f, ok => by
    rw [ofCondition] at ok
    obtain ⟨fs, translated, ok⟩ := bind_ok ok
    have branches := branches_hold d children fs translated
    rw [Condition.Holds]
    cases fs with
    | nil =>
      obtain rfl := Except.ok.inj ok
      simp [admits_everything, branches.1]
    | cons g gs =>
      obtain rfl := Except.ok.inj ok
      have present : children ≠ [] := by simpa using branches.1
      simp [admits, allScopes, branches.2, present]
theorem conjunction_holds (d : Document) : ∀ (conditions : List Condition) (f g : Filter),
    conjunction f conditions = .ok g →
      (g.admits d = true ↔ f.admits d = true ∧ Condition.AllHold d conditions)
  | [], f, g, ok => by
    rw [conjunction] at ok
    obtain rfl := Except.ok.inj ok
    simp [Condition.AllHold]
  | c :: rest, f, g, ok => by
    rw [conjunction] at ok
    obtain ⟨h, translated, ok⟩ := bind_ok ok
    rw [conjunction_holds d rest _ g ok, admits_merge, Bool.and_eq_true,
      ofCondition_holds d c h translated, Condition.AllHold, and_assoc]
theorem branches_hold (d : Document) : ∀ (conditions : List Condition) (fs : List Filter),
    branches conditions = .ok fs →
      (conditions = [] ↔ fs = []) ∧ (someBranch d fs = true ↔ Condition.SomeHold d conditions)
  | [], fs, ok => by
    rw [branches] at ok
    obtain rfl := Except.ok.inj ok
    simp [someBranch, Condition.SomeHold]
  | c :: rest, fs, ok => by
    rw [branches] at ok
    obtain ⟨f, translated, ok⟩ := bind_ok ok
    obtain ⟨gs, others, ok⟩ := bind_ok ok
    obtain rfl := Except.ok.inj ok
    have tail := (branches_hold d rest gs others).2
    simp [someBranch, Condition.SomeHold, ofCondition_holds d c f translated, tail]
end

/-- A document passes the filter of some conditions exactly when each condition holds of it. -/
theorem admits_iff_conditions_hold (conditions : List Condition) (f : Filter)
    (ok : ofConditions conditions = .ok f) (d : Document) :
    f.admits d = true ↔ ∀ c ∈ conditions, c.Holds d := by
  rw [conjunction_holds d conditions everything f ok, admits_everything, Condition.allHold_iff]
  simp

def nestedSample : List Condition :=
  [.group .all
    [.leaf ⟨Field.count, .atLeast, .scalar (.int 1), Field.count_ne, rfl⟩,
      .group .any
        [Condition.equalsText Field.cause "bed" Field.cause_ne,
          .group .all
            [Condition.within Field.count ⟨0x3FF0000000000000⟩ ⟨0x4008000000000000⟩ Field.count_ne]]],
    .leaf ⟨Field.cause, .equals, .list [.text "bed", .text "fire"], Field.cause_ne, rfl⟩]

theorem nestedSample_admits :
    ∃ f, ofConditions nestedSample = .ok f ∧
      (f.admits [("count", .double ⟨0x4000000000000000⟩)] = true ∧
        ∀ c ∈ nestedSample, c.Holds [("count", .double ⟨0x4000000000000000⟩)]) ∧
      (f.admits [("cause", .array [.text "fire"]), ("count", .int 2)] = false ∧
        ¬ ∀ c ∈ nestedSample, c.Holds [("cause", .array [.text "fire"]), ("count", .int 2)]) := by
  let f := (ofConditions nestedSample).toOption.getD everything
  have translated : ofConditions nestedSample = .ok f := rfl
  have pass : f.admits [("count", .double ⟨0x4000000000000000⟩)] = true := by decide +kernel
  have fail : f.admits [("cause", .array [.text "fire"]), ("count", .int 2)] = false := by
    decide +kernel
  refine ⟨f, translated, ⟨pass, ?_⟩, ⟨fail, ?_⟩⟩
  · exact (admits_iff_conditions_hold nestedSample f translated _).mp pass
  · intro holds
    rw [(admits_iff_conditions_hold nestedSample f translated _).mpr holds] at fail
    exact Bool.noConfusion fail

end Filter
end AuditLog
