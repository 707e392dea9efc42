import AuditLog.Filter
import AuditLog.Proofs.AddressText
import AuditLog.Proofs.PlayerSearch

/-! What a parameter accepts it can also build. Accepting and building read the same text each on
their own; they agree because no piece of an accepted list is blank. Then a list gives one condition
with one operand for each of its values, and no condition is void. -/
namespace AuditLog

namespace Condition

/-- The condition asks for one of no values. -/
def Void (c : Condition) : Prop := ∃ l, c = .leaf l ∧ l.rule = .includes ∧ l.operand = .list []

/-- The condition compares the field with these texts: for equality with the only one, for
membership among several. -/
inductive Compares (field : Path) : List String → Condition → Prop
  | only (s : String) (field_ne : field.segments ≠ []) :
    Compares field [s] (.leaf ⟨field, .equals, .scalar (.text s), field_ne, rfl⟩)
  | several (texts : List String) (field_ne : field.segments ≠ []) (many : 2 ≤ texts.length) :
    Compares field texts (.leaf ⟨field, .includes, .list (texts.map .text), field_ne, rfl⟩)

theorem compares_oneOf {field : Path} {texts : List String} (field_ne : field.segments ≠ [])
    (present : texts ≠ []) : Compares field texts (oneOf field texts field_ne) := by
  match texts, present with
  | [s], _ => exact .only s field_ne
  | a :: b :: rest, _ => exact .several _ field_ne (by simp)

/-- The condition compares one field, is not void, and can be translated. -/
structure Usable (c : Condition) : Prop where
  leaf : c.IsLeaf
  present : ¬ c.Void
  translated : ∃ f, Filter.ofCondition c = .ok f

theorem usable_leaf {l : Leaf} (present : ¬ (l.rule = .includes ∧ l.operand = .list []))
    (tested : ∃ tests, Filter.leafTests l = .ok tests) : (leaf l).Usable := by
  refine ⟨⟨l, rfl⟩, ?_, ?_⟩
  · rintro ⟨_, ⟨⟩, void⟩
    exact present void
  · obtain ⟨tests, tested⟩ := tested
    refine ⟨tests.foldl (fun f test => f.add l.field test) .everything, ?_⟩
    rw [Filter.ofCondition, Filter.ofLeaf, tested]
    rfl

section Usable

variable {field : Path} (field_ne : field.segments ≠ [])

theorem usable_equalsText (s : String) : (equalsText field s field_ne).Usable :=
  usable_leaf (fun void => nomatch void.1) ⟨_, rfl⟩

theorem usable_present (b : Bool) : (present field b field_ne).Usable :=
  usable_leaf (fun void => nomatch void.1) ⟨_, rfl⟩

theorem usable_since (t : Instant) : (since field t field_ne).Usable :=
  usable_leaf (fun void => nomatch void.1) ⟨_, rfl⟩

theorem usable_within (lower upper : Double) : (within field lower upper field_ne).Usable :=
  usable_leaf (fun void => nomatch void.1) ⟨_, rfl⟩

end Usable

theorem tests_texts (l : Leaf) {texts : List String}
    (listed : l.operand = .list (texts.map .text)) : ∃ tests, Filter.leafTests l = .ok tests := by
  have stored (texts : List String) :
      (texts.map Datum.text).mapM (Filter.stored? l) = .ok (texts.map Value.text) := by
    rw [List.mapM_map]
    exact List.mapM_pure
  simp only [Filter.leafTests, listed, stored]
  exact ⟨_, rfl⟩

theorem Compares.usable {field : Path} {texts : List String} {c : Condition}
    (compares : Compares field texts c) : c.Usable := by
  cases compares with
  | only s field_ne => exact usable_equalsText field_ne s
  | several _ field_ne many =>
    apply usable_leaf
    · rintro ⟨-, empty⟩
      have none : texts = [] := by simpa using Operand.list.inj empty
      rw [none] at many
      exact absurd many (by decide)
    · exact tests_texts _ rfl

end Condition

theorem Filter.ofConditions_ok {conditions : List Condition}
    (usable : ∀ c ∈ conditions, c.Usable) : ∃ f, ofConditions conditions = .ok f := by
  have merged (f : Filter) : ∃ g, conjunction f conditions = .ok g := by
    induction conditions generalizing f with
    | nil => exact ⟨f, rfl⟩
    | cons c rest ih =>
      obtain ⟨first, others⟩ := List.forall_mem_cons.mp usable
      obtain ⟨g, translated⟩ := first.translated
      rw [conjunction, translated]
      exact ih others _
  exact merged everything

namespace Search

/-- There is a condition or a look-up, and all conditions, also those that are looked up, can be
used. -/
structure Contribution.Sound (c : Contribution) : Prop where
  something : c.conditions ≠ [] ∨ c.lookup.isSome = true
  usable : ∀ conditions, conditions = c.conditions ∨ c.lookup = some (.found conditions) →
    ∀ condition ∈ conditions, condition.Usable

theorem Contribution.sound_ofCondition {c : Condition} (usable : c.Usable) :
    (ofCondition c).Sound := by
  refine ⟨.inl (List.cons_ne_nil _ _), ?_⟩
  rintro _ (rfl | never) condition member
  · rwa [List.mem_singleton.mp member]
  · cases never

/-- What the handler allows and accepts it builds. -/
def ParameterHandler.Reliable (h : ParameterHandler) : Prop :=
  ∀ now session argument, h.allows session.requester = true →
    h.accepts now argument.value = true →
    ∃ c, h.build now session argument = .ok c ∧ c.Sound

/-- A parameter on a list of values: the field that it compares, and the text that stands there
for a value. -/
structure ListParameter where
  handler : ParameterHandler
  field : Path
  operand? : String → Option String

namespace Parameters

/-- A list of words, which are compared in lower case. -/
def wordList (handler : ParameterHandler) (field : Path) : ListParameter :=
  ⟨handler, field, some ∘ Text.lower⟩

def worldList : ListParameter := ⟨world, Field.world, some⟩

def addressList : ListParameter :=
  ⟨ip, Field.ip, fun value => (IpAddress.parse? value).map IpAddress.text⟩

/-- A list of names, in whose place stand the identifiers. -/
def nameList (players : Players) (handler : ParameterHandler) (field : Path) : ListParameter :=
  ⟨handler, field, fun name => (players.id? name).map Uuid.text⟩

/-- The lists that are read at once. -/
def lists : List ListParameter :=
  [wordList event Field.event, worldList, wordList cause Field.cause, wordList block Field.block,
    wordList item Field.itemType, wordList entity Field.entity, wordList target Field.target,
    addressList]

/-- The lists that are looked up. -/
def nameLists (players : Players) : List ListParameter :=
  [nameList players (player players) Field.player,
    nameList players (recipient players) Field.recipient]

theorem isBlank_identifier {c : Char} (named : isIdentifierChar c = true) :
    Text.isBlank c = false := by
  simp only [isIdentifierChar, Bool.or_eq_true, beq_iff_eq] at named
  rcases named with (((alphanum | rfl) | rfl) | rfl) | rfl
  · exact (nameChar_plain (by rw [alphanum, Bool.true_or])).1
  all_goals decide

theorem solid_identifier {s : String}
    (named : (!s.isEmpty && s.toList.all isIdentifierChar) = true) : Text.Solid s := by
  rw [Bool.and_eq_true, Bool.not_eq_true', List.all_eq_true] at named
  refine ⟨fun c member => isBlank_identifier (named.2 c member), ?_⟩
  intro empty
  rw [String.toList_eq_nil_iff.mp empty] at named
  exact absurd named.1 (by decide)

/-- The pieces of a list that was checked piece by piece are its values; there is at least one. -/
theorem values_checked {value : String} {check : String → Bool}
    (solid : ∀ s, check s = true → Text.Solid s)
    (checked : (Text.split ',' value).all check = true) :
    Text.values value ≠ [] ∧ ∀ v ∈ Text.values value, check v = true := by
  rw [List.all_eq_true] at checked
  rw [Text.values_eq_split fun piece member => solid piece (checked piece member)]
  exact ⟨Text.split_ne_nil _ _, checked⟩

end Parameters

namespace ListParameter

/-- An accepted list is one condition with one operand for each value, in their order. -/
def Faithful (l : ListParameter) : Prop :=
  ∀ now session argument, l.handler.accepts now argument.value = true →
    ∃ texts condition, (Text.values argument.value).mapM l.operand? = some texts ∧
      condition.Compares l.field texts ∧
      l.handler.build now session argument = .ok (.ofCondition condition)

/-- An accepted list is looked up. It is found if all names are known, and is then one condition
with their operands in order; otherwise the look-up fails at a name that is not. -/
def Sought (players : Players) (l : ListParameter) : Prop :=
  ∀ now session argument, l.handler.accepts now argument.value = true →
    ∃ lookup, l.handler.build now session argument = .ok ⟨[], some lookup⟩ ∧
      ((∃ texts condition, (Text.values argument.value).mapM l.operand? = some texts ∧
        condition.Compares l.field texts ∧ lookup = .found [condition]) ∨
      ∃ name ∈ Text.values argument.value, players.id? name = none ∧
        lookup = .failed (.unknownPlayer name))

variable {l : ListParameter}

theorem Faithful.reliable (faithful : l.Faithful) : l.handler.Reliable := by
  intro now session argument _ accepted
  obtain ⟨texts, condition, -, compares, built⟩ := faithful now session argument accepted
  exact ⟨_, built, Contribution.sound_ofCondition compares.usable⟩

theorem Sought.reliable {players : Players} (sought : l.Sought players) : l.handler.Reliable := by
  intro now session argument _ accepted
  obtain ⟨lookup, built, ended⟩ := sought now session argument accepted
  refine ⟨_, built, .inr rfl, ?_⟩
  rintro conditions (rfl | found) condition member
  · cases member
  · obtain rfl := Option.some_inj.mp found
    rcases ended with ⟨texts, only, -, compares, same⟩ | ⟨_, -, -, failed⟩
    · cases same
      rw [List.mem_singleton.mp member]
      exact compares.usable
    · cases failed

end ListParameter

namespace Parameters

section Lists

variable {field : Path}

/-- A value or more have an operand or more. -/
theorem compares_operands {values texts : List String} {operand? : String → Option String}
    (field_ne : field.segments ≠ []) (present : values ≠ [])
    (made : values.mapM operand? = some texts) :
    (Condition.oneOf field texts field_ne).Compares field texts := by
  apply Condition.compares_oneOf
  rintro rfl
  obtain ⟨v, rest, rfl⟩ := List.exists_cons_of_ne_nil present
  rw [List.mapM_cons] at made
  obtain ⟨_, -, others⟩ := Option.bind_eq_some_iff.mp made
  obtain ⟨_, -, same⟩ := Option.bind_eq_some_iff.mp others
  cases same

/-- A handler that compares its field with what each value becomes. -/
theorem faithful_each {h : ParameterHandler} {f : String → String}
    (field_ne : field.segments ≠ [])
    (present : ∀ now value, h.accepts now value = true → Text.values value ≠ [])
    (builds : ∀ now session argument, h.build now session argument =
      .ok (.ofCondition (.oneOf field ((Text.values argument.value).map f) field_ne))) :
    (⟨h, field, some ∘ f⟩ : ListParameter).Faithful := by
  intro now session argument accepted
  have made : (Text.values argument.value).mapM (some ∘ f) =
      some ((Text.values argument.value).map f) := List.mapM_pure
  exact ⟨_, _, made, compares_operands field_ne (present now _ accepted) made,
    builds now session argument⟩

theorem faithful_event : (wordList event Field.event).Faithful := by
  refine faithful_each (by decide) ?_ fun _ _ _ => rfl
  intro now value accepted
  simp only [event, plain, Bool.and_eq_true, Bool.not_eq_true', List.isEmpty_eq_false_iff]
    at accepted
  exact accepted.1

theorem faithful_literal (name : String) (aliases : List String) (field_ne : field.segments ≠ []) :
    (wordList (literal name aliases field field_ne) field).Faithful := by
  refine faithful_each field_ne ?_ fun _ _ _ => rfl
  intro _ _ accepted
  exact (values_checked (fun _ => solid_identifier) accepted).1

theorem faithful_world : worldList.Faithful := by
  refine faithful_each (f := id) Field.world_ne ?_ ?_
  · intro _ _ accepted
    exact (values_checked (fun _ => solid_identifier) accepted).1
  · intro now session argument
    rw [List.map_id]
    rfl

theorem mapM_addresses {values : List String}
    (read : ∀ v ∈ values, (IpAddress.parse? v).isSome = true) :
    ∃ addresses, values.mapM IpAddress.parse? = some addresses ∧
      values.mapM (fun v => (IpAddress.parse? v).map IpAddress.text) =
        some (addresses.map IpAddress.text) := by
  induction values with
  | nil => exact ⟨[], rfl, rfl⟩
  | cons v rest ih =>
    obtain ⟨here, later⟩ := List.forall_mem_cons.mp read
    obtain ⟨address, known⟩ := Option.isSome_iff_exists.mp here
    obtain ⟨others, made, texts⟩ := ih later
    exact ⟨address :: others, by rw [List.mapM_cons, known, made]; rfl,
      by rw [List.mapM_cons, known, texts]; rfl⟩

theorem faithful_ip : addressList.Faithful := by
  intro now session argument accepted
  obtain ⟨present, read⟩ := values_checked (fun _ => IpAddress.solid_of_parse) accepted
  obtain ⟨addresses, made, texts⟩ := mapM_addresses read
  refine ⟨_, _, texts, compares_operands (by decide) present texts, ?_⟩
  simp only [addressList, ip, plain, made]
  rfl

/-- Either all names are known, or the first that is not is the error. -/
theorem identifiers_cases (players : Players) (names : List String) :
    (∃ ids, names.mapM (fun name => (players.id? name).map Uuid.text) = some ids ∧
      identifiers players names = .ok ids) ∨
    ∃ name ∈ names, players.id? name = none ∧
      identifiers players names = .error (.unknownPlayer name) := by
  unfold identifiers
  induction names with
  | nil => exact .inl ⟨[], rfl, rfl⟩
  | cons name rest ih =>
    rw [List.mapM_cons, List.mapM_cons]
    cases known : players.id? name with
    | none => exact .inr ⟨name, List.mem_cons_self, known, rfl⟩
    | some id =>
      rcases ih with ⟨ids, found, same⟩ | ⟨other, member, unknown, failed⟩
      · rw [found, same]
        exact .inl ⟨id.text :: ids, rfl, rfl⟩
      · rw [failed]
        exact .inr ⟨other, List.mem_cons_of_mem _ member, unknown, rfl⟩

theorem sought_named (name : String) (aliases : List String) (field_ne : field.segments ≠ [])
    (players : Players) :
    (nameList players (named name aliases field field_ne players) field).Sought players := by
  intro now session argument accepted
  obtain ⟨present, -⟩ := values_checked (fun _ => solid_name) accepted
  refine ⟨_, rfl, ?_⟩
  unfold playerLookup
  rcases identifiers_cases players (Text.values argument.value) with
    ⟨ids, found, same⟩ | ⟨name, member, unknown, failed⟩
  · rw [same]
    exact .inl ⟨ids, _, found, compares_operands field_ne present found, rfl⟩
  · rw [failed]
    exact .inr ⟨name, member, unknown, rfl⟩

theorem faithful_lists : ∀ l ∈ lists, l.Faithful := by
  intro l member
  simp only [lists, List.mem_cons, List.not_mem_nil, or_false] at member
  rcases member with rfl | rfl | rfl | rfl | rfl | rfl | rfl | rfl
  · exact faithful_event
  · exact faithful_world
  · exact faithful_literal _ _ _
  · exact faithful_literal _ _ _
  · exact faithful_literal _ _ _
  · exact faithful_literal _ _ _
  · exact faithful_literal _ _ _
  · exact faithful_ip

theorem sought_nameLists (players : Players) : ∀ l ∈ nameLists players, l.Sought players := by
  intro l member
  simp only [nameLists, List.mem_cons, List.not_mem_nil, or_false] at member
  rcases member with rfl | rfl
  · exact sought_named _ _ _ players
  · exact sought_named _ _ _ players

end Lists

theorem reliable_plain (name : String) (aliases : List String) {accepts : String → Bool}
    {condition : Argument → Except SearchError Condition}
    (builds : ∀ argument, accepts argument.value = true →
      ∃ c, condition argument = .ok c ∧ c.Usable) :
    (plain name aliases accepts condition).Reliable := by
  intro now session argument _ accepted
  obtain ⟨c, made, usable⟩ := builds argument accepted
  refine ⟨.ofCondition c, ?_, Contribution.sound_ofCondition usable⟩
  simp only [plain, made]
  rfl

theorem reliable_freeText (name : String) (aliases : List String) {field : Path}
    (field_ne : field.segments ≠ []) : (freeText name aliases field field_ne).Reliable :=
  reliable_plain name aliases fun _ _ => ⟨_, rfl, Condition.usable_equalsText field_ne _⟩

theorem reliable_custom : custom.Reliable := by
  apply reliable_plain
  intro argument accepted
  obtain ⟨b, read⟩ := Option.isSome_iff_exists.mp accepted
  rw [read]
  exact ⟨_, rfl, Condition.usable_present _ b⟩

theorem reliable_time (standard : String) : (time standard).Reliable := by
  intro now session argument _ accepted
  obtain ⟨t, reached⟩ := Option.isSome_iff_exists.mp accepted
  refine ⟨.ofCondition (.since Field.created t), ?_,
    Contribution.sound_ofCondition (Condition.usable_since _ t)⟩
  simp only [time, sinceCutoff, reached]
  rfl

theorem usable_cube (place : Location) (radius : Nat) : ∀ c ∈ cube place radius, c.Usable := by
  intro c member
  simp only [cube, List.mem_cons, List.not_mem_nil, or_false] at member
  rcases member with rfl | rfl | rfl | rfl
  · exact Condition.usable_equalsText _ _
  · exact Condition.usable_within _ _ _
  · exact Condition.usable_within _ _ _
  · exact Condition.usable_within _ _ _

theorem reliable_radius (standard limit : Nat) : (radius standard limit).Reliable := by
  intro now session argument allowed accepted
  obtain ⟨place, located⟩ := Option.isSome_iff_exists.mp allowed
  obtain ⟨wanted, read⟩ := Option.isSome_iff_exists.mp accepted
  simp only [radius, located, read]
  refine ⟨_, rfl, .inl (List.cons_ne_nil _ _), ?_⟩
  rintro _ (rfl | never)
  · exact usable_cube place _
  · cases never

end Parameters

namespace Registry

open Parameters

variable {settings : Settings} {players : Players} {h : ParameterHandler}

theorem mem_builtin_iff : h ∈ builtinParameters settings players ↔
    h ∈ lists.map ListParameter.handler ∨ h ∈ (nameLists players).map ListParameter.handler ∨
      h ∈ [radius settings.defaultRadius settings.radiusLimit, time settings.defaultTime, message,
        itemName, itemLore, custom] := by
  simp only [builtinParameters, lists, nameLists, List.map_cons, List.map_nil, List.mem_cons,
    List.not_mem_nil, or_false]
  tauto

theorem reliable_builtin (member : h ∈ builtinParameters settings players) : h.Reliable := by
  rcases mem_builtin_iff.mp member with list | names | other
  · obtain ⟨l, within, rfl⟩ := List.mem_map.mp list
    exact (faithful_lists l within).reliable
  · obtain ⟨l, within, rfl⟩ := List.mem_map.mp names
    exact (sought_nameLists players l within).reliable
  · simp only [List.mem_cons, List.not_mem_nil, or_false] at other
    rcases other with rfl | rfl | rfl | rfl | rfl | rfl
    · exact reliable_radius _ _
    · exact reliable_time _
    · exact reliable_freeText _ _ _
    · exact reliable_freeText _ _ _
    · exact reliable_freeText _ _ _
    · exact reliable_custom

end Registry

/-- What a built-in parameter allows and accepts it builds: into a condition or more, or a look-up.
Its conditions, and those that its look-up finds, compare single fields, none of them asks for one
of no values, and together they can be translated. A list gives one condition, with one operand for
each of its values in their order; so does a list of names if all of them are known. -/
theorem accepted_values_build (settings : Settings) (players : Players) (now : Instant)
    (session : Session) (argument : Argument) :
    (∀ h ∈ Registry.builtinParameters settings players, h.allows session.requester = true →
      h.accepts now argument.value = true →
      ∃ c, h.build now session argument = .ok c ∧
        (c.conditions ≠ [] ∨ c.lookup.isSome = true) ∧
        ∀ conditions, conditions = c.conditions ∨ c.lookup = some (.found conditions) →
          (∀ condition ∈ conditions, condition.IsLeaf ∧ ¬ condition.Void) ∧
            ∃ f, Filter.ofConditions conditions = .ok f) ∧
    (∀ l ∈ Parameters.lists, l.handler ∈ Registry.builtinParameters settings players ∧
      (l.handler.accepts now argument.value = true →
        ∃ texts condition, (Text.values argument.value).mapM l.operand? = some texts ∧
          condition.Compares l.field texts ∧
          l.handler.build now session argument = .ok ⟨[condition], none⟩)) ∧
    ∀ l ∈ Parameters.nameLists players, l.handler ∈ Registry.builtinParameters settings players ∧
      (l.handler.accepts now argument.value = true →
        ∃ lookup, l.handler.build now session argument = .ok ⟨[], some lookup⟩ ∧
          ((∃ texts condition, (Text.values argument.value).mapM l.operand? = some texts ∧
            condition.Compares l.field texts ∧ lookup = .found [condition]) ∨
          ∃ name ∈ Text.values argument.value, players.id? name = none ∧
            lookup = .failed (.unknownPlayer name))) := by
  refine ⟨?_, ?_, ?_⟩
  · intro h member allowed accepted
    obtain ⟨c, built, sound⟩ :=
      Registry.reliable_builtin member now session argument allowed accepted
    refine ⟨c, built, sound.something, ?_⟩
    intro conditions given
    have usable := sound.usable conditions given
    refine ⟨?_, Filter.ofConditions_ok usable⟩
    intro condition within
    exact ⟨(usable condition within).leaf, (usable condition within).present⟩
  · intro l member
    exact ⟨Registry.mem_builtin_iff.mpr (.inl (List.mem_map_of_mem member)),
      Parameters.faithful_lists l member now session argument⟩
  · intro l member
    exact ⟨Registry.mem_builtin_iff.mpr (.inr (.inl (List.mem_map_of_mem member))),
      Parameters.sought_nameLists players l member now session argument⟩

section Sample

/-- Only the first of these names is known. -/
def onlyAlice : Players := .ofList [("Alice", ⟨7⟩)]

theorem sample_built :
    (Parameters.radius 5 100).allows digger = true ∧
    (Parameters.radius 5 100).accepts clock "+7" = true ∧
    (∃ c, (Parameters.radius 5 100).build clock (.start digger .utc) ⟨"r", "+7"⟩ = .ok c ∧
      ∃ f, Filter.ofConditions c.conditions = .ok f) ∧
    Parameters.ip.accepts clock "10.0.0.1,0:0::0:1" = true ∧
    (∃ condition, Parameters.ip.build clock (.start digger .utc) ⟨"ip", "10.0.0.1,0:0::0:1"⟩ =
        .ok ⟨[condition], none⟩ ∧
      condition.Compares Field.ip ["10.0.0.1", "::1"]) ∧
    (Parameters.player onlyAlice).accepts clock "ALICE,bob" = true ∧
    (Parameters.player onlyAlice).build clock (.start digger .utc) ⟨"p", "ALICE,bob"⟩ =
      .ok ⟨[], some (.failed (.unknownPlayer "bob"))⟩ := by
  have inside : (Parameters.radius 5 100).accepts clock "+7" = true := by decide +kernel
  have addresses : Parameters.ip.accepts clock "10.0.0.1,0:0::0:1" = true := by decide +kernel
  have names : (Parameters.player onlyAlice).accepts clock "ALICE,bob" = true := by decide +kernel
  refine ⟨rfl, inside, ?_, addresses, ?_, names, ?_⟩
  · obtain ⟨built, -, -⟩ := accepted_values_build .standard onlyAlice clock (.start digger .utc)
      ⟨"r", "+7"⟩
    obtain ⟨c, made, -, usable⟩ := built _ (Registry.radius_mem .standard onlyAlice) rfl inside
    exact ⟨c, made, (usable _ (.inl rfl)).2⟩
  · obtain ⟨-, lists, -⟩ := accepted_values_build .standard onlyAlice clock (.start digger .utc)
      ⟨"ip", "10.0.0.1,0:0::0:1"⟩
    obtain ⟨texts, condition, operands, compares, made⟩ :=
      (lists Parameters.addressList (by simp [Parameters.lists])).2 addresses
    have canonical : (Text.values "10.0.0.1,0:0::0:1").mapM
        (fun value => (IpAddress.parse? value).map IpAddress.text) = some ["10.0.0.1", "::1"] := by
      decide +kernel
    obtain rfl := Option.some_inj.mp (operands.symm.trans canonical)
    exact ⟨condition, made, compares⟩
  · obtain ⟨-, -, nameLists⟩ := accepted_values_build .standard onlyAlice clock (.start digger .utc)
      ⟨"p", "ALICE,bob"⟩
    obtain ⟨lookup, made, ended⟩ :=
      (nameLists (Parameters.nameList onlyAlice (Parameters.player onlyAlice) Field.player)
        (by simp [Parameters.nameLists])).2 names
    have values : Text.values "ALICE,bob" = ["ALICE", "bob"] := by decide +kernel
    have alice : onlyAlice.id? "ALICE" = some ⟨7⟩ := by decide +kernel
    have bob : onlyAlice.id? "bob" = none := by decide +kernel
    rcases ended with ⟨texts, _, operands, -, -⟩ | ⟨name, member, unknown, failed⟩
    · have failed : (Text.values "ALICE,bob").mapM
          (fun name => (onlyAlice.id? name).map Uuid.text) = none := by decide +kernel
      cases operands.symm.trans failed
    · simp only [values, List.mem_cons, List.not_mem_nil, or_false] at member
      rcases member with rfl | rfl
      · rw [alice] at unknown
        cases unknown
      · rw [failed] at made
        exact made

end Sample

end Search
end AuditLog
