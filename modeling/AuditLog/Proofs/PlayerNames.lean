import AuditLog.Players
import AuditLog.Proofs.Tables
import Mathlib.Data.List.Induction

/-! What names lead to, after any insertions of players. A name that is found belongs to a player
who is shown under it. The converse fails where players share a name: the last insertion of a name
is in force until one of those who are shown under it then is inserted again. -/
namespace AuditLog

instance : Std.LawfulEqOrd Uuid where
  compare_self := Nat.compare_eq_eq.mpr rfl
  eq_of_compare := by
    intro a b equal
    cases a
    cases b
    exact congrArg Uuid.mk (BitVec.eq_of_toNat_eq (Nat.compare_eq_eq.mp equal))

namespace Players

/-- The player was inserted under this name last. -/
def Named (entries : List (String × Uuid)) (id : Uuid) (name : String) : Prop :=
  ∃ before after, entries = before ++ (name, id) :: after ∧ ∀ e ∈ after, e.2 ≠ id

/-- The player's name has these letters. -/
def Shown (entries : List (String × Uuid)) (id : Uuid) (name : String) : Prop :=
  ∃ own, Named entries id own ∧ Text.lower own = Text.lower name

/-- The name was given to this player last, and of all who were shown under it then, this one
included, none was inserted since. -/
def InForce (entries : List (String × Uuid)) (name : String) (id : Uuid) : Prop :=
  ∃ before spelling after, entries = before ++ (spelling, id) :: after ∧
    Text.lower spelling = Text.lower name ∧
    ∀ e ∈ after, Text.lower e.1 ≠ Text.lower name ∧ ¬ Shown (before ++ [(spelling, id)]) e.2 name

/-- Nobody is given a name that another player has. -/
def Unshared (entries : List (String × Uuid)) : Prop :=
  ∀ before name id after, entries = before ++ (name, id) :: after →
    ∀ other, Shown before other name → other = id

section Insertions

variable {entries : List (String × Uuid)} {name given : String} {id player : Uuid}

theorem concat_eq_split {α : Type} {xs before after : List α} {x y : α} :
    xs ++ [x] = before ++ y :: after ↔
      (before = xs ∧ y = x ∧ after = []) ∨
        ∃ later, after = later ++ [x] ∧ xs = before ++ y :: later := by
  constructor
  · intro split
    rcases List.eq_nil_or_concat after with rfl | ⟨later, z, rfl⟩
    · obtain ⟨same, last⟩ := List.append_inj' split rfl
      exact .inl ⟨same.symm, (List.singleton_inj.mp last).symm, rfl⟩
    · have last : xs ++ [x] = (before ++ y :: later) ++ [z] := by
        rw [split, List.concat_eq_append, List.append_assoc, List.cons_append]
      obtain ⟨same, last⟩ := List.append_inj' last rfl
      exact .inr ⟨later, by rw [last, List.concat_eq_append], same⟩
  · rintro (⟨rfl, rfl, rfl⟩ | ⟨later, rfl, rfl⟩)
    · rfl
    · rw [List.append_assoc, List.cons_append]

theorem named_concat : Named (entries ++ [(given, player)]) id name ↔
    (id = player ∧ name = given) ∨ (id ≠ player ∧ Named entries id name) := by
  constructor
  · rintro ⟨before, after, split, last⟩
    rcases concat_eq_split.mp split with ⟨-, same, -⟩ | ⟨later, rfl, earlier⟩
    · cases same
      exact .inl ⟨rfl, rfl⟩
    · refine .inr ⟨?_, before, later, earlier, ?_⟩
      · exact (last (given, player) (by simp)).symm
      · intro e member
        exact last e (List.mem_append_left _ member)
  · rintro (⟨rfl, rfl⟩ | ⟨other, before, after, rfl, last⟩)
    · exact ⟨entries, [], rfl, by simp⟩
    · refine ⟨before, after ++ [(given, player)], by simp, ?_⟩
      intro e member
      rcases List.mem_append.mp member with old | new
      · exact last e old
      · cases List.mem_singleton.mp new
        exact other.symm

theorem shown_concat : Shown (entries ++ [(given, player)]) id name ↔
    (id = player ∧ Text.lower given = Text.lower name) ∨ (id ≠ player ∧ Shown entries id name) := by
  simp only [Shown, named_concat]
  constructor
  · rintro ⟨own, ⟨rfl, rfl⟩ | ⟨other, named⟩, same⟩
    · exact .inl ⟨rfl, same⟩
    · exact .inr ⟨other, own, named, same⟩
  · rintro (⟨rfl, same⟩ | ⟨other, own, named, same⟩)
    · exact ⟨given, .inl ⟨rfl, rfl⟩, same⟩
    · exact ⟨own, .inr ⟨other, named⟩, same⟩

/-- Where the name is not given again, those keep it who are not inserted again. -/
theorem shown_append {later : List (String × Uuid)}
    (others : ∀ e ∈ later, Text.lower e.1 ≠ Text.lower name) :
    Shown (entries ++ later) id name ↔ Shown entries id name ∧ ∀ e ∈ later, e.2 ≠ id := by
  induction later using List.reverseRecOn with
  | nil => simp
  | append_singleton later e ih =>
    have earlier := ih fun e member => others e (List.mem_append_left _ member)
    have last := others e (by simp)
    rw [← List.append_assoc, shown_concat, earlier]
    simp only [last, and_false, false_or, List.forall_mem_append, List.forall_mem_singleton]
    constructor
    · rintro ⟨other, shown, apart⟩
      exact ⟨shown, apart, other.symm⟩
    · rintro ⟨shown, apart, other⟩
      exact ⟨other.symm, shown, apart⟩

/-- What one insertion does to a name: it is given, or it stays in force unless the player inserted
is shown under it. -/
theorem inForce_concat : InForce (entries ++ [(given, player)]) name id ↔
    (Text.lower given = Text.lower name ∧ id = player) ∨
      (Text.lower given ≠ Text.lower name ∧ InForce entries name id ∧
        ¬ Shown entries player name) := by
  constructor
  · rintro ⟨before, spelling, after, split, same, since⟩
    rcases concat_eq_split.mp split with ⟨-, last, -⟩ | ⟨later, rfl, rfl⟩
    · cases last
      exact .inl ⟨same, rfl⟩
    · obtain ⟨earlier, now⟩ := List.forall_mem_append.mp since
      obtain ⟨other, hidden⟩ := now (given, player) (List.mem_singleton_self _)
      refine .inr ⟨other, ⟨before, spelling, later, rfl, same, earlier⟩, ?_⟩
      intro shown
      rw [List.append_cons, shown_append fun e member => (earlier e member).1] at shown
      exact hidden shown.1
  · rintro (⟨same, rfl⟩ | ⟨other, ⟨before, spelling, later, rfl, same, since⟩, hidden⟩)
    · exact ⟨entries, given, [], rfl, same, by simp⟩
    · refine ⟨before, spelling, later ++ [(given, player)], by simp, same, ?_⟩
      refine List.forall_mem_append.mpr ⟨since, List.forall_mem_singleton.mpr ⟨other, ?_⟩⟩
      intro shown
      apply hidden
      rw [List.append_cons, shown_append fun e member => (since e member).1]
      refine ⟨shown, ?_⟩
      rintro e member rfl
      exact (since e member).2 shown

theorem unshared_concat : Unshared (entries ++ [(given, player)]) ↔
    Unshared entries ∧ ∀ other, Shown entries other given → other = player := by
  constructor
  · intro unshared
    refine ⟨?_, unshared entries given player [] rfl⟩
    rintro before name id after rfl other shown
    exact unshared before name id (after ++ [(given, player)]) (by simp) other shown
  · rintro ⟨unshared, alone⟩ before name id after split other shown
    rcases concat_eq_split.mp split with ⟨rfl, same, -⟩ | ⟨later, rfl, rfl⟩
    · cases same
      exact alone other shown
    · exact unshared before name id later rfl other shown

theorem not_shown_nil : ¬ Shown [] id name := by
  rintro ⟨own, ⟨before, after, split, -⟩, -⟩
  simp at split

theorem unshared_nil : Unshared [] := by
  intro before name id after split
  simp at split

end Insertions

section Directory

variable (players : Players) (name asked : String) (id player : Uuid)

theorem ofList_concat (entries : List (String × Uuid)) :
    ofList (entries ++ [(name, id)]) = (ofList entries).insert name id := by
  rw [ofList, List.foldl_append]
  rfl

theorem name?_insert : (players.insert name id).name? player =
    if player = id then some name else players.name? player := Table.find?_insert _ _ _ _

/-- The insertion gives the new name and takes the old one, whoever it led to. -/
theorem id?_insert : (players.insert name id).id? asked = some player ↔
    (Text.lower name = Text.lower asked ∧ player = id) ∨
      (Text.lower name ≠ Text.lower asked ∧ players.id? asked = some player ∧
        ∀ own, players.name? id = some own → Text.lower own ≠ Text.lower asked) := by
  unfold insert id? name?
  rw [Table.find?_insert]
  by_cases same : Text.lower name = Text.lower asked
  · simp [same, eq_comm]
  · rw [if_neg (Ne.symm same)]
    cases previous : Table.find? id players.byId with
    | none => simp [same]
    | some own =>
      rw [Table.find?_erase]
      by_cases given : Text.lower own = Text.lower asked
      · simp [same, given]
      · simp [same, given, Ne.symm given]

theorem name?_ofList (entries : List (String × Uuid)) :
    (ofList entries).name? id = some name ↔ Named entries id name := by
  induction entries using List.reverseRecOn with
  | nil => simp [ofList, empty, name?, Table.find?, Named]
  | append_singleton entries e ih =>
    rw [ofList_concat, name?_insert, named_concat, ← ih]
    by_cases same : id = e.2
    · simp [same, eq_comm]
    · simp [same]

theorem shown_iff (entries : List (String × Uuid)) : Shown entries id name ↔
    ∃ own, (ofList entries).name? id = some own ∧ Text.lower own = Text.lower name := by
  simp only [Shown, name?_ofList]

theorem id?_ofList (entries : List (String × Uuid)) :
    (ofList entries).id? name = some id ↔ InForce entries name id := by
  induction entries using List.reverseRecOn with
  | nil => simp [ofList, empty, id?, Table.find?, InForce]
  | append_singleton entries e ih =>
    rw [ofList_concat, id?_insert, inForce_concat, ih, shown_iff]
    simp only [not_exists, not_and]

end Directory

section Resolution

variable {entries : List (String × Uuid)} {name : String} {id : Uuid}

/-- Whoever a name leads to is shown under it. -/
theorem InForce.shown (inForce : InForce entries name id) : Shown entries id name := by
  induction entries using List.reverseRecOn with
  | nil =>
    obtain ⟨before, spelling, after, split, -⟩ := inForce
    simp at split
  | append_singleton entries e ih =>
    rw [shown_concat]
    rcases inForce_concat.mp inForce with ⟨same, rfl⟩ | ⟨-, earlier, hidden⟩
    · exact .inl ⟨rfl, same⟩
    · refine .inr ⟨?_, ih earlier⟩
      rintro rfl
      exact hidden (ih earlier)

/-- Where no name is shared, each is in force for whoever is shown under it. -/
theorem Unshared.inForce (unshared : Unshared entries) (shown : Shown entries id name) :
    InForce entries name id := by
  induction entries using List.reverseRecOn generalizing id with
  | nil => exact absurd shown not_shown_nil
  | append_singleton entries e ih =>
    obtain ⟨earlier, alone⟩ := unshared_concat.mp unshared
    rw [inForce_concat]
    rcases shown_concat.mp shown with ⟨rfl, same⟩ | ⟨other, before⟩
    · exact .inl ⟨same, rfl⟩
    · refine .inr ⟨?_, ih earlier before, ?_⟩
      · intro same
        obtain ⟨own, named, letters⟩ := before
        exact other (alone id ⟨own, named, letters.trans same.symm⟩)
      · intro both
        have found := (id?_ofList name id entries).mpr (ih earlier before)
        have owner := (id?_ofList name e.2 entries).mpr (ih earlier both)
        exact other (Option.some.inj (found.symm.trans owner))

end Resolution

/-- Which name a player is shown under, and whom a name leads to, after any insertions: whoever it
leads to is shown under it, and where players share no name each leads back to its player. -/
theorem names_resolve (entries : List (String × Uuid)) :
    (∀ id name, (ofList entries).name? id = some name ↔ Named entries id name) ∧
    (∀ id name, (ofList entries).id? name = some id ↔ InForce entries name id) ∧
    (∀ id name, (ofList entries).id? name = some id →
      ∃ own, (ofList entries).name? id = some own ∧ Text.lower own = Text.lower name) ∧
    (Unshared entries → ∀ id name, (ofList entries).name? id = some name →
      (ofList entries).id? name = some id) := by
  refine ⟨fun id name => name?_ofList name id entries, fun id name => id?_ofList name id entries,
    ?_, ?_⟩
  · intro id name found
    have inForce := (id?_ofList name id entries).mp found
    exact (shown_iff name id entries).mp inForce.shown
  · intro unshared id name named
    have shown : Shown entries id name := ⟨name, (name?_ofList name id entries).mp named, rfl⟩
    exact (id?_ofList name id entries).mpr (unshared.inForce shown)

/-- A player who is renamed and a second one lead each to themselves. -/
theorem names_resolve_renamed :
    Unshared [("Alice", ⟨1⟩), ("Bob", ⟨2⟩), ("Carol", ⟨1⟩)] ∧
      (ofList [("Alice", ⟨1⟩), ("Bob", ⟨2⟩), ("Carol", ⟨1⟩)]).id? "Carol" = some ⟨1⟩ := by
  have bob : Text.lower "Alice" ≠ Text.lower "Bob" := by decide
  have carol : Text.lower "Bob" ≠ Text.lower "Carol" := by decide
  have unshared :
      Unshared ([] ++ [("Alice", ⟨1⟩)] ++ [("Bob", ⟨2⟩)] ++ [("Carol", ⟨1⟩)]) := by
    simp only [unshared_concat, shown_concat, not_shown_nil, unshared_nil, bob, carol]
    simp +contextual
  refine ⟨unshared, ?_⟩
  exact (names_resolve _).2.2.2 unshared ⟨1⟩ "Carol" (by decide)

/-- Two players share a name; when the first of them is renamed, the second one is shown under a
name that leads to nobody. -/
theorem shared_name_lost :
    let players := ofList [("Alice", ⟨1⟩), ("ALICE", ⟨2⟩), ("Bob", ⟨1⟩)]
    players.name? ⟨2⟩ = some "ALICE" ∧ players.id? "ALICE" = none := by
  decide

end Players
end AuditLog
