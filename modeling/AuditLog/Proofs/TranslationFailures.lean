import AuditLog.Filter
import AuditLog.Proofs.StorableRecords

/-! When conditions have no filter. Translation goes through the leaves from left to right and
fails at the first one with an operand that has no stored form. A translator that did not rely on
the check of a leaf's parts would have three more ways to fail; that check excludes all of them. -/
namespace AuditLog

theorem Value.ofDatum?_isNone {v : Datum} : ofDatum? v = none ↔ v.listsOnly = true := by
  refine ⟨fun missing => ?_, Datum.ofDatum?_of_listsOnly⟩
  cases v with
  | list items =>
    rw [ofDatum?_list] at missing
    by_contra kept
    rw [if_neg kept] at missing
    cases missing
  | _ => cases missing

namespace Leaf

/-- The operand, or one of those in a list, is itself a list of nothing but lists. -/
def unstorable (leaf : Leaf) : Bool :=
  match leaf.operand with
  | .scalar v => v.listsOnly
  | .list items => items.any Datum.listsOnly
  | .range _ => false

theorem make_self (leaf : Leaf) : make leaf.field leaf.rule leaf.operand = .ok leaf := by
  rw [make, dif_pos leaf.field_ne, dif_pos leaf.fits]

theorem make_ok {field : Path} {rule : Rule} {operand : Operand} {leaf : Leaf}
    (made : make field rule operand = .ok leaf) :
    leaf.field = field ∧ leaf.rule = rule ∧ leaf.operand = operand := by
  unfold make at made
  split at made
  · split at made
    · cases made
      exact ⟨rfl, rfl, rfl⟩
    · cases made
  · cases made

end Leaf

namespace Condition

mutual
/-- The leaves from left to right, at any depth. -/
def leaves : Condition → List Leaf
  | .leaf l => [l]
  | .group _ children => leavesOf children
def leavesOf : List Condition → List Leaf
  | [] => []
  | c :: rest => leaves c ++ leavesOf rest
end

end Condition

namespace Filter

/-- Why the parts of a comparison set no tests, where nothing is known of how they fit. -/
inductive PartsError where
  | unsupported (field : Path) (rule : Rule)
  | openRange (field : Path) (rule : Rule)
  | notBoolean (field : Path)
  | misfit (field : Path) (rule : Rule) (operand : Operand)

def PartsError.ofFilterError : FilterError → PartsError
  | .unsupported field rule => .unsupported field rule

section Parts

variable (field : Path) (rule : Rule)

def partsValue (v : Datum) : Except PartsError Value :=
  match Value.ofDatum? v with
  | some encoded => .ok encoded
  | none => .error (.unsupported field rule)

def partsEnd (bound : Bound) (inclusive exclusive : Value → Test) : Except PartsError Test :=
  match bound with
  | .inclusive x => .ok (inclusive (.double x))
  | .exclusive x => .ok (exclusive (.double x))
  | .unbounded => .error (.openRange field rule)

/-- The tests of a comparison whose parts were not checked against each other. -/
def partsTests (operand : Operand) : Except PartsError (List Test) :=
  match rule, operand with
  | rule, .list items => do
    let values ← items.mapM (partsValue field rule)
    return [if rule = .includes then .among values else .notAmong values]
  | .exists, .scalar v =>
    match v.bool? with
    | some b => .ok [.present b]
    | none => .error (.notBoolean field)
  | .equals, .scalar v => do return [.equal (← partsValue field rule v)]
  | .atLeast, .scalar v => do return [.atLeast (← partsValue field rule v)]
  | .atMost, .scalar v => do return [.atMost (← partsValue field rule v)]
  | .between, .range r => do
    let lower ← partsEnd field rule r.lower .atLeast .above
    let upper ← partsEnd field rule r.upper .atMost .below
    return [lower, upper]
  | rule, operand => .error (.misfit field rule operand)

end Parts

theorem partsValue_eq (leaf : Leaf) (v : Datum) :
    partsValue leaf.field leaf.rule v = (stored? leaf v).mapError .ofFilterError := by
  rw [partsValue, stored?]
  cases Value.ofDatum? v <;> rfl

theorem mapM_partsValue (leaf : Leaf) (items : List Datum) :
    items.mapM (partsValue leaf.field leaf.rule) =
      (items.mapM (stored? leaf)).mapError .ofFilterError := by
  induction items with
  | nil => rfl
  | cons v rest ih =>
    rw [List.mapM_cons, List.mapM_cons, ih, partsValue_eq]
    cases stored? leaf v with
    | error e => rfl
    | ok w => cases rest.mapM (stored? leaf) <;> rfl

/-- Of a checked leaf, the tests of its parts are its tests; nothing else can go wrong. -/
theorem partsTests_eq (leaf : Leaf) :
    partsTests leaf.field leaf.rule leaf.operand =
      (leafTests leaf).mapError .ofFilterError := by
  have fits := leaf.fits
  have value := partsValue_eq leaf
  have values := mapM_partsValue leaf
  rw [leafTests]
  cases shape : leaf.operand with
  | list items =>
    simp only [partsTests, values]
    cases items.mapM (stored? leaf) <;> rfl
  | range r =>
    cases rule : leaf.rule <;> simp only [shape, rule, Operand.fits, Bool.false_eq_true] at fits
    obtain ⟨lower, upper⟩ := r
    cases lower <;> cases upper <;> first | rfl | cases fits
  | scalar v =>
    cases rule : leaf.rule <;> simp only [shape, rule, Operand.fits, Bool.false_eq_true] at fits
    case «exists» =>
      cases v <;> simp only [Bool.false_eq_true] at fits
      rfl
    all_goals
      rw [rule] at value
      simp only [partsTests, value]
      cases stored? leaf v <;> rfl

/-! The failure of a translation, and the leaf that it comes from. -/

section Failure

variable {ε α β : Type}

def failure? : Except ε α → Option ε
  | .error e => some e
  | .ok _ => none

theorem failure?_eq_some {result : Except ε α} {e : ε} :
    failure? result = some e ↔ result = .error e := by
  cases result <;> simp [failure?]

/-- Where the second step fails alike whatever the first gives, the first failure counts. -/
theorem failure?_bind {first : Except ε α} {next : α → Except ε β} {later : Option ε}
    (alike : ∀ a, failure? (next a) = later) :
    failure? (first >>= next) = (failure? first).or later := by
  cases first with
  | error e => rfl
  | ok a => exact alike a

theorem failure?_map (first : Except ε α) (f : α → β) :
    failure? (do return f (← first)) = failure? first := by
  cases first <;> rfl

end Failure

/-- The only failure there is for a leaf, where `missing` says that there is one. -/
def unsupported? (leaf : Leaf) (missing : Bool) : Option FilterError :=
  if missing then some (.unsupported leaf.field leaf.rule) else none

theorem failure?_stored? (leaf : Leaf) (v : Datum) :
    failure? (stored? leaf v) = unsupported? leaf v.listsOnly := by
  rw [stored?]
  cases encoded : Value.ofDatum? v with
  | none =>
    rw [Value.ofDatum?_isNone.mp encoded]
    rfl
  | some w =>
    have kept : v.listsOnly = false := by
      rw [← Bool.not_eq_true, ← Value.ofDatum?_isNone, encoded]
      exact Option.some_ne_none w
    rw [kept]
    rfl

theorem failure?_mapM (leaf : Leaf) (items : List Datum) :
    failure? (items.mapM (stored? leaf)) = unsupported? leaf (items.any Datum.listsOnly) := by
  induction items with
  | nil => rfl
  | cons v rest ih =>
    rw [List.mapM_cons, failure?_bind fun w => failure?_map _ (w :: ·), ih, failure?_stored?,
      List.any_cons]
    cases v.listsOnly <;> rfl

theorem failure?_ofLeaf (leaf : Leaf) :
    failure? (ofLeaf leaf) = unsupported? leaf leaf.unstorable := by
  have fits := leaf.fits
  refine (failure?_map _ _).trans ?_
  rw [leafTests, Leaf.unstorable]
  cases shape : leaf.operand with
  | list items => exact (failure?_map _ _).trans (failure?_mapM leaf items)
  | range r => rfl
  | scalar v =>
    cases rule : leaf.rule <;> simp only [shape, rule, Operand.fits, Bool.false_eq_true] at fits
    case «exists» =>
      cases v <;> simp only [Bool.false_eq_true] at fits
      rfl
    all_goals exact (failure?_map _ _).trans (failure?_stored? leaf v)

def leafFailure? (leaf : Leaf) : Option FilterError := unsupported? leaf leaf.unstorable

theorem leafFailure?_eq_some {leaf : Leaf} {e : FilterError} : leafFailure? leaf = some e ↔
    leaf.unstorable = true ∧ e = .unsupported leaf.field leaf.rule := by
  rw [leafFailure?, unsupported?, Option.ite_none_right_eq_some, Option.some.injEq,
    eq_comm (a := e)]

theorem leafFailure?_eq_none {leaf : Leaf} :
    leafFailure? leaf = none ↔ leaf.unstorable = false := by
  simp [leafFailure?, unsupported?]

mutual
theorem failure?_ofCondition : ∀ c : Condition,
    failure? (ofCondition c) = c.leaves.findSome? leafFailure?
  | .leaf leaf => by
    simp only [ofCondition, Condition.leaves, List.findSome?_singleton]
    exact failure?_ofLeaf leaf
  | .group .all children => by
    rw [ofCondition, Condition.leaves]
    exact failure?_conjunction children everything
  | .group .any children => by
    rw [ofCondition, Condition.leaves, ← failure?_branches children]
    cases branches children with
    | error e => rfl
    | ok fs => cases fs <;> rfl
theorem failure?_conjunction : ∀ (conditions : List Condition) (f : Filter),
    failure? (conjunction f conditions) = (Condition.leavesOf conditions).findSome? leafFailure?
  | [], f => rfl
  | c :: rest, f => by
    rw [conjunction, Condition.leavesOf, List.findSome?_append, ← failure?_ofCondition c]
    exact failure?_bind fun g => failure?_conjunction rest (f.merge g)
theorem failure?_branches : ∀ conditions : List Condition,
    failure? (branches conditions) = (Condition.leavesOf conditions).findSome? leafFailure?
  | [] => rfl
  | c :: rest => by
    rw [branches, Condition.leavesOf, List.findSome?_append, ← failure?_ofCondition c,
      ← failure?_branches rest]
    exact failure?_bind fun f => failure?_map _ (f :: ·)
end

/-- Translation fails exactly when some leaf has an operand without a stored form, with the error of
the first such leaf from left to right. Every leaf comes from a successful check of its parts, and
whatever parts the check lets through have no other way to fail. -/
theorem translation_fails_iff (conditions : List Condition) :
    ((∃ e, ofConditions conditions = .error e) ↔
        ∃ leaf ∈ Condition.leavesOf conditions, leaf.unstorable = true) ∧
      (∀ e, ofConditions conditions = .error e ↔
        ∃ before leaf after, Condition.leavesOf conditions = before ++ leaf :: after ∧
          (∀ earlier ∈ before, earlier.unstorable = false) ∧ leaf.unstorable = true ∧
          e = .unsupported leaf.field leaf.rule) ∧
      (∀ leaf ∈ Condition.leavesOf conditions,
        Leaf.make leaf.field leaf.rule leaf.operand = .ok leaf) ∧
      ∀ field rule operand leaf, Leaf.make field rule operand = .ok leaf →
        partsTests field rule operand = (leafTests leaf).mapError .ofFilterError := by
  have reported (e : FilterError) : ofConditions conditions = .error e ↔
      (Condition.leavesOf conditions).findSome? leafFailure? = some e := by
    rw [← failure?_eq_some, ofConditions, failure?_conjunction]
  refine ⟨?_, ?_, fun leaf _ => leaf.make_self, ?_⟩
  · simp only [reported, ← Option.isSome_iff_exists, List.findSome?_isSome_iff]
    simp only [Option.isSome_iff_exists, leafFailure?_eq_some, exists_and_left, exists_eq, and_true]
  · intro e
    rw [reported, List.findSome?_eq_some_iff]
    simp only [leafFailure?_eq_some, leafFailure?_eq_none]
    constructor
    · rintro ⟨before, leaf, after, order, ⟨unstorable, same⟩, earlier⟩
      exact ⟨before, leaf, after, order, earlier, unstorable, same⟩
    · rintro ⟨before, leaf, after, order, earlier, unstorable, same⟩
      exact ⟨before, leaf, after, order, ⟨unstorable, same⟩, earlier⟩
  · intro field rule operand leaf made
    obtain ⟨rfl, rfl, rfl⟩ := Leaf.make_ok made
    exact partsTests_eq leaf

end Filter
end AuditLog
