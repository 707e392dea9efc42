import AuditLog.Proofs.WordEffects

/-! Flags may stand anywhere among the words of a search. They add nothing to the query, and
arguments change nothing in the session; so a search with all its flags in front is accepted exactly
if it is as it was typed, and then both are the same search. -/
namespace AuditLog.Search

def isFlag (word : String) : Bool :=
  match Word.parse? word with
  | some (.flag ..) => true
  | _ => false

/-- All flags before all other words, both in the order in which they stood. -/
def flagsFirst (words : List String) : List String :=
  words.filter isFlag ++ words.filter (!isFlag ·)

section Words

variable {word : String}

theorem flag_of_isFlag (flag : isFlag word = true) :
    ∃ label value, Word.parse? word = some (.flag label value) := by
  unfold isFlag at flag
  split at flag
  next label value parsed => exact ⟨label, value, parsed⟩
  next => cases flag

theorem argument?_flag (flag : isFlag word = true) : argument? word = none := by
  obtain ⟨label, value, parsed⟩ := flag_of_isFlag flag
  exact Progress.argument?_eq_none (by simp [parsed])

theorem sessionAfter_of_not_flag (registry : Registry) (session : Session)
    (other : isFlag word = false) : registry.sessionAfter session word = session := by
  unfold Registry.sessionAfter
  split
  next label value parsed =>
    rw [isFlag, parsed] at other
    cases other
  next => rfl

/-- A flag is a word that adds nothing. -/
theorem adds_of_isFlag {registry : Registry} (steady : registry.Steady) (now : Instant)
    (requester : Requester) (flag : isFlag word = true) :
    conditionsOf now registry requester word = [] ∧ lookupsOf now registry requester word = [] := by
  obtain ⟨label, value, parsed⟩ := flag_of_isFlag flag
  unfold conditionsOf lookupsOf
  cases taken : alone now registry requester word with
  | error e => exact ⟨rfl, rfl⟩
  | ok r =>
    rcases Progress.step_cases taken with ⟨-, rfl⟩ | ⟨_, _, h, _, c, -, found, applied, rfl⟩ |
      ⟨argument, _, _, asked, -⟩
    · exact ⟨rfl, rfl⟩
    · have silent := steady.silent h (Registry.flag?_some found).1
      rw [silent.adds _ _ _ _ _ applied]
      exact ⟨rfl, rfl⟩
    · cases parsed.symm.trans asked

end Words

section Order

theorem mem_flagsFirst {words : List String} {word : String} :
    word ∈ flagsFirst words ↔ word ∈ words := by
  rw [flagsFirst, List.mem_append, List.mem_filter, List.mem_filter, ← and_or_left]
  cases isFlag word <;> simp

/-- What flags add nothing to does not change when they are moved. -/
theorem flatMap_flagsFirst {α : Type} {f : String → List α}
    (quiet : ∀ word, isFlag word = true → f word = []) (words : List String) :
    (flagsFirst words).flatMap f = words.flatMap f := by
  have flags : (words.filter isFlag).flatMap f = [] :=
    List.flatMap_eq_nil_iff.mpr fun word member => quiet word (List.mem_filter.mp member).2
  rw [flagsFirst, List.flatMap_append, flags, List.nil_append]
  clear flags
  induction words with
  | nil => rfl
  | cons word rest ih =>
    cases flag : isFlag word <;> simp [flag, quiet, ih]

theorem arguments_flagsFirst (words : List String) :
    arguments (flagsFirst words) = arguments words := by
  simp only [arguments, List.filterMap_eq_flatMap_toList]
  apply flatMap_flagsFirst
  intro word flag
  rw [argument?_flag flag]
  rfl

/-- The session is changed by the flags, in their order. -/
theorem session_flagsFirst (registry : Registry) (words : List String) (session : Session) :
    (flagsFirst words).foldl registry.sessionAfter session =
      words.foldl registry.sessionAfter session := by
  have others (words : List String) (none : ∀ word ∈ words, isFlag word = false)
      (session : Session) : words.foldl registry.sessionAfter session = session := by
    induction words with
    | nil => rfl
    | cons word rest ih =>
      obtain ⟨here, later⟩ := List.forall_mem_cons.mp none
      rw [List.foldl_cons, sessionAfter_of_not_flag registry session here]
      exact ih later
  rw [flagsFirst, List.foldl_append, others _ (by simp)]
  induction words generalizing session with
  | nil => rfl
  | cons word rest ih =>
    cases flag : isFlag word with
    | true => rw [List.filter_cons_of_pos flag, List.foldl_cons, List.foldl_cons, ih]
    | false =>
      rw [List.filter_cons_of_neg (by simp [flag]), List.foldl_cons,
        sessionAfter_of_not_flag registry session flag, ih]

end Order

namespace Progress

variable {now : Instant} {registry : Registry} {p q : Progress} {words : List String}

theorem takes_flagsFirst :
    p.Takes now registry (flagsFirst words) ↔ p.Takes now registry words := by
  constructor
  · rintro ⟨alone, before, among⟩
    rw [arguments_flagsFirst] at before among
    exact ⟨fun word member => alone word (mem_flagsFirst.mpr member), before, among⟩
  · rintro ⟨alone, before, among⟩
    refine ⟨fun word member => alone word (mem_flagsFirst.mp member), ?_, ?_⟩
    · rwa [arguments_flagsFirst]
    · rwa [arguments_flagsFirst]

theorem after_flagsFirst (steady : registry.Steady) (p : Progress) (words : List String) :
    p.after now registry (flagsFirst words) = p.after now registry words := by
  have quiet (word : String) (flag : isFlag word = true) :=
    adds_of_isFlag steady now p.session.requester flag
  simp only [after, session_flagsFirst, arguments_flagsFirst,
    flatMap_flagsFirst fun word flag => (quiet word flag).1,
    flatMap_flagsFirst fun word flag => (quiet word flag).2]

theorem run_flagsFirst (steady : registry.Steady) :
    p.run now registry (flagsFirst words) = (q, none) ↔ p.run now registry words = (q, none) := by
  rw [run_iff steady, run_iff steady, takes_flagsFirst, after_flagsFirst steady]

end Progress

namespace Compiler

/-- With the built-in handlers and no flag for selections, a search and the same search with its
flags moved to the front are accepted together; and then they agree in the conditions and look-ups,
in their order, in the defaults that were used, and in the session that they leave. -/
theorem flags_anywhere (settings : Settings) (players : Players) (now : Instant)
    (first last : Session) (words : List String) (compiled : Compiled) :
    (builtin settings players).prepare now first (flagsFirst words) = (last, .ok compiled) ↔
      (builtin settings players).prepare now first words = (last, .ok compiled) := by
  have steady : (builtin settings players).registry.Steady :=
    Registry.steady_builtin settings players
  rw [prepare_ok_iff, prepare_ok_iff]
  simp only [Progress.run_flagsFirst steady]

/-- The error may be another one, since the flag is now read first. -/
example : ((builtin .standard default).prepare clock (.start .console .utc)
      ["p:", "-zz"]).2.map (fun _ => ()) = .error (.emptyValue "p") ∧
    ((builtin .standard default).prepare clock (.start .console .utc)
      (flagsFirst ["p:", "-zz"])).2.map (fun _ => ()) = .error (.unknownFlag "zz") := by
  decide +kernel

end Compiler
end AuditLog.Search
