import AuditLog.Proofs.IgnoredDefaults
import AuditLog.Proofs.WordEffects

/-! Without defaults a search is put together from its words. Two searches of one requester, typed
one after the other, are accepted exactly if each is and none names a radius where the other names a
world; then conditions and look-ups follow each other. The first search that is refused decides. -/
namespace AuditLog.Search

open Parameters

/-- The first words name a radius and the others a world. -/
def Clash (words others : List String) : Prop :=
  (∃ word ∈ words, asks radiusAliases word = true) ∧
    ∃ word ∈ others, asks worldAliases word = true

instance (words others : List String) : Decidable (Clash words others) :=
  inferInstanceAs (Decidable ((∃ word ∈ words, asks radiusAliases word = true) ∧
    ∃ word ∈ others, asks worldAliases word = true))

theorem clash_append (xs ys : List String) : Clash (xs ++ ys) (xs ++ ys) ↔
    Clash xs xs ∨ Clash ys ys ∨ Clash xs ys ∨ Clash ys xs := by
  have split (aliases : List String) : (∃ word ∈ xs ++ ys, asks aliases word = true) ↔
      (∃ word ∈ xs, asks aliases word = true) ∨ ∃ word ∈ ys, asks aliases word = true := by
    simp only [List.mem_append, or_and_right, exists_or]
  rw [Clash, split, split, Clash, Clash, Clash, Clash, or_and_right, and_or_left, and_or_left]
  grind

theorem radius_not_world {label : String} (near : answersTo radiusAliases label = true) :
    answersTo worldAliases label = false := by
  have apart : Registry.Apart radiusAliases worldAliases := by decide
  exact apart.answersTo_false near

theorem rivals_iff {label other : String} : answersTo (rivals label) other = true ↔
    (answersTo radiusAliases label = true ∧ answersTo worldAliases other = true) ∨
      answersTo worldAliases label = true ∧ answersTo radiusAliases other = true := by
  unfold rivals
  split
  next near => simp [near, radius_not_world near]
  next near =>
    split
    next far => simp [near, far]
    next far =>
      have none : answersTo [] other = false := rfl
      simp [near, far, none]

theorem rivals_symm {label other : String} (meets : answersTo (rivals label) other = true) :
    answersTo (rivals other) label = true := by
  rcases rivals_iff.mp meets with ⟨near, far⟩ | ⟨far, near⟩
  · exact rivals_iff.mpr (.inr ⟨far, near⟩)
  · exact rivals_iff.mpr (.inl ⟨near, far⟩)

/-- No argument meets a rival exactly if there is no radius or no world. -/
theorem pairwise_rivals (given : List Argument) :
    (given.Pairwise fun first second => answersTo (rivals second.label) first.label = false) ↔
      ¬ (given.any (answersTo radiusAliases ·.label) = true ∧
        given.any (answersTo worldAliases ·.label) = true) := by
  have symmetric : Std.Symm fun first second : Argument =>
      answersTo (rivals second.label) first.label = false := by
    constructor
    intro first second apart
    rw [← Bool.not_eq_true] at apart ⊢
    exact fun meets => apart (rivals_symm meets)
  simp only [List.any_eq_true]
  constructor
  · rintro apart ⟨⟨a, member, near⟩, b, member', far⟩
    have different : a ≠ b := by
      rintro rfl
      rw [radius_not_world near] at far
      cases far
    have free := apart.forall member member' different
    rw [← Bool.not_eq_true, rivals_iff] at free
    exact free (.inr ⟨far, near⟩)
  · intro never
    apply List.pairwise_of_forall_mem_list
    intro a member b member'
    rw [← Bool.not_eq_true, rivals_iff]
    rintro (⟨near, far⟩ | ⟨far, near⟩)
    · exact never ⟨⟨b, member', near⟩, a, member, far⟩
    · exact never ⟨⟨a, member, near⟩, b, member', far⟩

theorem Progress.run_append_stopped {now : Instant} {registry : Registry} {p q : Progress}
    {words : List String} {e : SearchError} (refused : p.run now registry words = (q, some e))
    (more : List String) : p.run now registry (words ++ more) = (q, some e) := by
  induction words generalizing p with
  | nil => cases refused
  | cons word rest ih =>
    rw [run] at refused
    rw [List.cons_append, run]
    split at refused
    next r stepped => exact ih refused
    next => exact refused

namespace Compiler

variable {settings : Settings} {players : Players} {now : Instant} {first last : Session}
  {words : List String} {compiled : Compiled}

theorem takes_start (compiler : Compiler) :
    (compiler.start first).Takes now compiler.registry words ↔
      (∀ word ∈ words, (alone now compiler.registry first.requester word).isOk = true) ∧
        ¬ Clash words words := by
  have named (aliases : List String) : (arguments words).any (answersTo aliases ·.label) = true ↔
      ∃ word ∈ words, asks aliases word = true := by
    rw [any_asks, List.any_eq_true]
  have clash : ¬ Clash words words ↔ (arguments words).Pairwise fun first second =>
      answersTo (rivals second.label) first.label = false := by
    rw [pairwise_rivals, named, named, Clash]
  rw [clash]
  exact ⟨fun takes => ⟨takes.alone, takes.among⟩, fun ⟨alone, among⟩ => ⟨alone, by
    intro _ _
    rfl, among⟩⟩

section Plain

variable (disabled : settings.defaultsEnabled = false)

include disabled

/-- Without defaults, what the words leave is the search. -/
theorem prepare_plain_iff : (builtin settings players).prepare now first words =
      (last, .ok compiled) ↔
    ((builtin settings players).start first).Takes now (.builtin settings players) words ∧
      ∃ p, p = ((builtin settings players).start first).after now (.builtin settings players)
          words ∧
        p.session = last ∧ compiled = ⟨p.query, p.pending, [], settings.timeout⟩ := by
  have finished (p : Progress) : (builtin settings players).finish now p = .ok compiled ↔
      compiled = ⟨p.query, p.pending, [], settings.timeout⟩ := by
    have off : (builtin settings players).settings.defaultsEnabled = false := disabled
    simp only [finish, off]
    exact ⟨fun same => (Except.ok.inj same).symm, fun same => congrArg Except.ok same.symm⟩
  have steady := Registry.steady_builtin settings players
  have registry : (builtin settings players).registry = .builtin settings players := rfl
  simp only [prepare_ok_iff, registry, Progress.run_iff steady, finished]
  constructor
  · rintro ⟨p, ⟨takes, left⟩, same, compiled⟩
    exact ⟨takes, p, left, same, compiled⟩
  · rintro ⟨takes, p, left, same, compiled⟩
    exact ⟨p, ⟨takes, left⟩, same, compiled⟩

/-- Without defaults a search is accepted exactly if each word is on its own and no radius meets a
world. -/
theorem isOk_plain_iff : ((builtin settings players).prepare now first words).2.isOk = true ↔
    (∀ word ∈ words, (alone now (.builtin settings players) first.requester word).isOk = true) ∧
      ¬ Clash words words := by
  have start : ((builtin settings players).start first).Takes now (.builtin settings players)
        words ↔
      (∀ word ∈ words, (alone now (.builtin settings players) first.requester word).isOk = true) ∧
        ¬ Clash words words := takes_start (builtin settings players)
  rw [← start]
  constructor
  · intro accepted
    obtain ⟨compiled, prepared⟩ := prepare_isOk accepted
    exact ((prepare_plain_iff disabled).mp prepared).1
  · intro takes
    rw [(prepare_plain_iff disabled).mpr ⟨takes, _, rfl, rfl, rfl⟩]
    rfl

/-- A refused search is refused alike whatever is typed after it. -/
theorem prepare_stopped {e : SearchError}
    (refused : (builtin settings players).prepare now first words = (last, .error e))
    (more : List String) :
    (builtin settings players).prepare now first (words ++ more) = (last, .error e) := by
  have off : (builtin settings players).settings.defaultsEnabled = false := disabled
  unfold prepare at refused
  split at refused
  next p stop stopped =>
    rw [prepare, Progress.run_append_stopped stopped]
    exact refused
  next p taken =>
    simp only [finish, off] at refused
    cases (Prod.mk.inj refused).2

end Plain

/-- Without defaults the built-in search language is compositional. Words typed after one another
are accepted exactly if both parts are, by themselves, and neither names a radius while the other
names a world. Then the conditions and look-ups of the first part come before those of the second.
If the first part is refused, so is the whole, with the same error. -/
theorem searches_compose (settings : Settings) (players : Players) (now : Instant)
    (first second : Session) (xs ys : List String) (disabled : settings.defaultsEnabled = false)
    (same : second.requester = first.requester) :
    (((builtin settings players).prepare now first (xs ++ ys)).2.isOk = true ↔
      ((builtin settings players).prepare now first xs).2.isOk = true ∧
        ((builtin settings players).prepare now second ys).2.isOk = true ∧
        ¬ (Clash xs ys ∨ Clash ys xs)) ∧
    (∀ s t u a b c, (builtin settings players).prepare now first xs = (s, .ok a) →
      (builtin settings players).prepare now second ys = (t, .ok b) →
      (builtin settings players).prepare now first (xs ++ ys) = (u, .ok c) →
        c.query.conditions = a.query.conditions ++ b.query.conditions ∧
        c.pending = a.pending ++ b.pending) ∧
    ∀ s e, (builtin settings players).prepare now first xs = (s, .error e) →
      (builtin settings players).prepare now first (xs ++ ys) = (s, .error e) := by
  refine ⟨?_, ?_, ?_⟩
  · rw [isOk_plain_iff disabled, isOk_plain_iff disabled, isOk_plain_iff disabled, same,
      clash_append, List.forall_mem_append]
    grind
  · intro s t u a b c accepted accepted' whole
    obtain ⟨-, _, rfl, -, rfl⟩ := (prepare_plain_iff disabled).mp accepted
    obtain ⟨-, _, rfl, -, rfl⟩ := (prepare_plain_iff disabled).mp accepted'
    obtain ⟨-, _, rfl, -, rfl⟩ := (prepare_plain_iff disabled).mp whole
    simp [Progress.after, start, Query.add, same]
  · intro s e refused
    exact prepare_stopped disabled refused ys

section Sample

def withoutDefaults : Settings := { Settings.standard with defaultsEnabled := false }

/-- A radius and a flag, then a player and a time in another session of the same digger. -/
theorem digger_composes : withoutDefaults.defaultsEnabled = false ∧
    ((Session.start digger .utc).turnOn .drain).requester = (Session.start digger .utc).requester ∧
    ∃ a b c : Compiled,
      ((builtin withoutDefaults default).prepare clock (.start digger .utc) ["r:5", "-ng"]).2 =
        .ok a ∧
      ((builtin withoutDefaults default).prepare clock ((Session.start digger .utc).turnOn .drain)
        ["p:Alice", "t:1h"]).2 = .ok b ∧
      ((builtin withoutDefaults default).prepare clock (.start digger .utc)
        ["r:5", "-ng", "p:Alice", "t:1h"]).2 = .ok c ∧
      a.query.conditions.length = 4 ∧ b.query.conditions.length = 1 ∧ b.pending.length = 1 ∧
      c.query.conditions = a.query.conditions ++ b.query.conditions ∧
      c.pending = a.pending ++ b.pending := by
  obtain ⟨iff, parts, -⟩ := searches_compose withoutDefaults default clock (.start digger .utc)
    ((Session.start digger .utc).turnOn .drain) ["r:5", "-ng"] ["p:Alice", "t:1h"] rfl rfl
  have accepted : ((builtin withoutDefaults default).prepare clock (.start digger .utc)
      ["r:5", "-ng"]).2.isOk = true := by decide +kernel
  have accepted' : ((builtin withoutDefaults default).prepare clock
      ((Session.start digger .utc).turnOn .drain) ["p:Alice", "t:1h"]).2.isOk = true := by
    decide +kernel
  have whole := iff.mpr ⟨accepted, accepted', by decide +kernel⟩
  obtain ⟨a, prepared⟩ := prepare_isOk accepted
  obtain ⟨b, prepared'⟩ := prepare_isOk accepted'
  obtain ⟨c, joined⟩ := prepare_isOk whole
  have size : ((builtin withoutDefaults default).prepare clock (.start digger .utc)
      ["r:5", "-ng"]).2.toOption.map (·.query.conditions.length) = some 4 := by decide +kernel
  have size' : ((builtin withoutDefaults default).prepare clock
      ((Session.start digger .utc).turnOn .drain) ["p:Alice", "t:1h"]).2.toOption.map
        (fun b => (b.query.conditions.length, b.pending.length)) = some (1, 1) := by decide +kernel
  rw [prepared] at size
  rw [prepared'] at size'
  obtain ⟨conditions, pending⟩ := Prod.mk.inj (Option.some_inj.mp size')
  refine ⟨rfl, rfl, a, b, c, ?_, ?_, ?_, Option.some_inj.mp size, conditions, pending,
    parts _ _ _ a b c prepared prepared' joined⟩
  · rw [prepared]
  · rw [prepared']
  · exact congrArg Prod.snd joined

end Sample

end Compiler
end AuditLog.Search
