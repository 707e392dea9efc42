import AuditLog.Proofs.StandIns

/-! Which defaults the flags of a search withdraw. A flag compares what it is told, in lower case, with
the names of a parameter as they are spelled; so a parameter is passed over under any spelling of a
name that it has in lower case, and under none of a name that it has otherwise. -/
namespace AuditLog

namespace Session

theorem ignored_ignore {session : Session} {name other : String}
    (ignored : session.ignores other = true ∨ other = name) :
    (session.ignore name).ignores other = true := by
  unfold ignore
  split
  next known =>
    rcases ignored with before | rfl
    · exact before
    · simp [ignores, known]
  next =>
    simp only [ignores, List.contains_eq_mem, List.mem_append, List.mem_singleton,
      Bool.or_eq_true, decide_eq_true_eq] at ignored ⊢
    rcases ignored with (all | known) | new
    · exact .inl all
    · exact .inr (.inl known)
    · exact .inr (.inr new)

theorem ignored_each {names : List String} {session : Session} {other : String}
    (ignored : session.ignores other = true ∨ ∃ v ∈ names, Text.lower v = other) :
    (names.foldl (fun s name => s.ignore (Text.lower name)) session).ignores other = true := by
  induction names generalizing session with
  | nil => simpa using ignored
  | cons name rest ih =>
    apply ih
    rcases ignored with before | ⟨v, member, same⟩
    · exact .inl (ignored_ignore (.inl before))
    · rcases List.mem_cons.mp member with rfl | later
      · exact .inl (ignored_ignore (.inr same.symm))
      · exact .inr ⟨v, later, same⟩

end Session

namespace Search

/-- The flag keeps what is ignored and withdraws every default that it should. -/
def FlagHandler.Thorough (h : FlagHandler) : Prop :=
  ∀ session label value session' c name, h.handles label = true →
    h.apply session label value = .ok (session', c) →
    session.ignores name = true ∨ Withdraws name label value → session'.ignores name = true

namespace Flags

/-- The aliases of the flags that withdraw defaults. -/
def withdrawing : List String := ["ignore-default", "id", "global", "g", "we-sel", "sel"]

theorem withdrawing_of_withdraws {name label : String} {value : Option String}
    (withdraws : Withdraws name label value) : answersTo withdrawing label = true := by
  have within (aliases : List String) (part : ∀ a ∈ aliases, a ∈ withdrawing)
      (answers : answersTo aliases label = true) : answersTo withdrawing label = true := by
    obtain ⟨a, own, same⟩ := answersTo_iff.mp answers
    exact answersTo_iff.mpr ⟨a, part a own, same⟩
  rcases withdraws with ⟨ignores, -⟩ | ⟨-, lifts | selects⟩
  · exact within ["ignore-default", "id"] (by decide) ignores
  · exact within ["global", "g"] (by decide) lifts
  · exact within ["we-sel", "sel"] (by decide) selects

theorem thorough_switch {name : String} {aliases : List String} (s : Switch)
    (apart : Registry.Apart aliases withdrawing) : (plain name aliases (·.turnOn s)).Thorough := by
  rintro session label value _ _ other handles ⟨⟩ (before | withdraws)
  · exact (session.ignores_turnOn s other).trans before
  · have never := apart.answersTo_false handles
    rw [withdrawing_of_withdraws withdraws] at never
    cases never

theorem thorough_order : order.Thorough := by
  intro session label value session' c other handles applied held
  rcases held with before | withdraws
  · simp only [order] at applied
    split at applied
    · cases applied
    · split at applied
      · cases applied
        exact before
      · cases applied
  · have apart : Registry.Apart order.aliases withdrawing := by decide
    have never := apart.answersTo_false handles
    rw [withdrawing_of_withdraws withdraws] at never
    cases never

theorem ignoreDefault_apart {label : String} (handles : ignoreDefault.handles label = true) :
    ¬ (global.handles label = true ∨ (selection fun _ => none).handles label = true) := by
  have apart : Registry.Apart ignoreDefault.aliases ["global", "g", "we-sel", "sel"] := by decide
  have never := apart.answersTo_false handles
  simp only [answersTo, List.any_cons, List.any_nil, Bool.or_false, Bool.or_eq_false_iff] at never
  simp [FlagHandler.handles, answersTo, global, plain, selection, never]

theorem thorough_global : global.Thorough := by
  rintro session label value _ _ other handles ⟨⟩ (before | ⟨ignores, -⟩ | ⟨radius, -⟩)
  · exact Session.ignored_ignore (.inl ((session.ignores_turnOn _ other).trans before))
  · exact absurd (.inl handles) (ignoreDefault_apart ignores)
  · exact Session.ignored_ignore (.inr radius)

theorem thorough_selection (provider : SelectionProvider) : (selection provider).Thorough := by
  intro session label value session' c other handles applied held
  simp only [selection] at applied
  split at applied
  · cases applied
  · cases applied
    rcases held with before | ⟨ignores, -⟩ | ⟨radius, -⟩
    · exact Session.ignored_ignore (.inl ((session.ignores_turnOn _ other).trans before))
    · exact absurd (.inr handles) (ignoreDefault_apart ignores)
    · exact Session.ignored_ignore (.inr radius)

theorem thorough_ignoreDefault : ignoreDefault.Thorough := by
  intro session label value session' c other handles applied held
  simp only [ignoreDefault] at applied
  split at applied
  · cases applied
    rfl
  next text =>
    cases applied
    rcases held with before | ⟨-, listed⟩ | ⟨-, lifts⟩
    · exact Session.ignored_each (.inl ((session.ignores_turnOn _ other).trans before))
    · exact Session.ignored_each (.inr (listed text rfl))
    · exact absurd lifts (ignoreDefault_apart handles)

end Flags

theorem Registry.thorough_builtin {settings : Settings} {h : FlagHandler}
    (member : h ∈ builtinFlags settings) : h.Thorough := by
  simp only [builtinFlags, List.mem_append, List.mem_cons, List.not_mem_nil, or_false] at member
  rcases member with (rfl | rfl | rfl | rfl | rfl) | defaults
  · exact Flags.thorough_switch _ (by decide)
  · exact Flags.thorough_switch _ (by decide)
  · exact Flags.thorough_switch _ (by decide)
  · exact Flags.thorough_switch _ (by decide)
  · exact Flags.thorough_order
  · split at defaults
    · simp only [List.mem_cons, List.not_mem_nil, or_false] at defaults
      rcases defaults with rfl | rfl
      · exact Flags.thorough_ignoreDefault
      · exact Flags.thorough_global
    · cases defaults

/-- The word is a flag that withdraws the default of this name. -/
def WithdrawnBy (name word : String) : Prop :=
  ∃ label value, Word.parse? word = some (.flag label value) ∧ Withdraws name label value

section Words

variable {now : Instant} {registry : Registry} {first last : Session} {name : String}

theorem withdraws_of_flag {word label : String} {value : Option String}
    (parsed : Word.parse? word = some (.flag label value)) (withdrawn : WithdrawnBy name word) :
    Withdraws name label value := by
  obtain ⟨label', value', parsed', withdraws⟩ := withdrawn
  rw [parsed] at parsed'
  cases parsed'
  exact withdraws

theorem not_withdrawnBy {word : String}
    (parsed : ∀ label value, Word.parse? word ≠ some (.flag label value)) :
    ¬ WithdrawnBy name word := by
  rintro ⟨label, value, flag, -⟩
  exact parsed label value flag

theorem ignores_adds (exact : ∀ h ∈ registry.flags, h.Mild ∧ h.Thorough) {word : String}
    {c : Contribution} (adds : Adds now registry first word last c) :
    last.ignores name = true ↔ first.ignores name = true ∨ WithdrawnBy name word := by
  cases adds with
  | blank parsed =>
    have none : ¬ WithdrawnBy name word := not_withdrawnBy (by simp [parsed])
    simp [none]
  | parameter parsed =>
    have none : ¬ WithdrawnBy name word :=
      not_withdrawnBy (by simp [argument?_eq_some.mp parsed])
    simp [none]
  | flag parsed found applied =>
    obtain ⟨member, handles⟩ := Registry.flag?_some found
    obtain ⟨mild, thorough⟩ := exact _ member
    obtain ⟨-, -, ignored⟩ := mild _ _ _ _ _ handles applied
    constructor
    · intro later
      rcases ignored name later with before | withdraws
      · exact .inl before
      · exact .inr ⟨_, _, parsed, withdraws⟩
    · intro held
      exact thorough _ _ _ _ _ name handles applied (held.imp_right (withdraws_of_flag parsed))

/-- After the words a name is ignored if it was before, or if some flag among them withdraws it. -/
theorem ignores_addEach (exact : ∀ h ∈ registry.flags, h.Mild ∧ h.Thorough) {words : List String}
    {cs : List Contribution} (each : AddEach now registry first words last cs) :
    last.ignores name = true ↔
      first.ignores name = true ∨ ∃ word ∈ words, WithdrawnBy name word := by
  induction each with
  | nil => simp
  | cons adds _ ih =>
    rw [ih, ignores_adds exact adds, or_assoc]
    simp

end Words

namespace Compiler

/-- The built-in flags beside any parameters, with providers of selections coming and going. -/
def withParameters (settings : Settings) (handlers : List ParameterHandler)
    (providers : List (Option SelectionProvider)) : Compiler :=
  providers.foldl setSelection ⟨⟨handlers, Registry.builtinFlags settings⟩, settings⟩

theorem withParameters_spec (settings : Settings) (handlers : List ParameterHandler)
    (providers : List (Option SelectionProvider)) :
    (withParameters settings handlers providers).settings = settings ∧
      (withParameters settings handlers providers).registry.parameters = handlers ∧
      ∀ h ∈ (withParameters settings handlers providers).registry.flags, h.Mild ∧ h.Thorough := by
  rw [withParameters, setSelection_run Registry.builtinFlags_not_selection]
  refine ⟨rfl, rfl, ?_⟩
  intro h member
  rcases mem_offering member with old | ⟨p, rfl⟩
  · exact ⟨Registry.mild_builtin old, Registry.thorough_builtin old⟩
  · exact ⟨Flags.mild_selection p, Flags.thorough_selection p⟩

/-- Defaults are withdrawn exactly. In an accepted search a parameter is asked to stand in if and only
if no word addresses it and none of its names, as they are spelled, was ignored before or is
withdrawn by a flag. A flag that lists values withdraws their lower-case forms: so any spelling of a
name does if the parameter has that name in lower case. -/
theorem default_asked_iff (settings : Settings) (handlers : List ParameterHandler)
    (providers : List (Option SelectionProvider)) (now : Instant) (first session : Session)
    (words : List String) (compiled : Compiled) (defaults : settings.defaultsEnabled = true)
    (prepared : (withParameters settings handlers providers).prepare now first words =
      (session, .ok compiled)) :
    ∃ p made, ((withParameters settings handlers providers).start first).run now
        (withParameters settings handlers providers).registry words = (p, none) ∧
      (withParameters settings handlers providers).callsAfter now p = .ok made ∧
      compiled.defaults = made.filterMap Call.used? ∧
      compiled.query.conditions = p.query.conditions ++ made.flatMap Call.conditions ∧
      (∀ h ∈ handlers, h ∈ made.map Call.handler ↔ words.any (asks h.aliases) = false ∧
        ∀ name ∈ h.name :: h.aliases, first.ignores name = false ∧
          ∀ word ∈ words, ¬ WithdrawnBy name word) ∧
      ∀ h ∈ handlers, ∀ name ∈ h.name :: h.aliases, Text.lower name = name →
        ∀ word ∈ words, ∀ label text, Word.parse? word = some (.flag label (some text)) →
          Flags.ignoreDefault.handles label = true →
          ∀ v ∈ Text.values text, Text.sameLetters v name = true → h ∉ made.map Call.handler := by
  obtain ⟨configured, parameters, exact⟩ := withParameters_spec settings handlers providers
  obtain ⟨p, made, taken, rfl, asked, rfl⟩ := prepare_accepted prepared
  obtain ⟨cs, each, -, -⟩ := Progress.addEach_of_run taken
  have each : AddEach now _ first words p.session cs := each
  have given : p.given = Progress.gather [] (arguments words) := Progress.given_run taken
  obtain ⟨order, -⟩ := callsAfter_spec asked
  rw [configured, defaults, if_pos rfl, parameters, given] at order
  have iff : ∀ h ∈ handlers, h ∈ made.map Call.handler ↔ words.any (asks h.aliases) = false ∧
      ∀ name ∈ h.name :: h.aliases, first.ignores name = false ∧
        ∀ word ∈ words, ¬ WithdrawnBy name word := by
    intro h member
    have held (name : String) : p.session.ignores name = false ↔
        first.ignores name = false ∧ ∀ word ∈ words, ¬ WithdrawnBy name word := by
      rw [← Bool.not_eq_true, ignores_addEach exact each, not_or, Bool.not_eq_true]
      simp only [not_exists, not_and]
    rw [order, List.mem_filter, isSettled_gather, Bool.not_or, Bool.and_eq_true, Bool.not_eq_true',
      Bool.not_eq_true', and_iff_right member]
    refine and_congr_right fun _ => ?_
    rw [List.any_eq_false]
    simp only [Bool.not_eq_true, held]
  refine ⟨p, made, taken, asked, rfl, rfl, iff, ?_⟩
  intro h member name own lower word within label text parsed handles v listed same asks
  refine (((iff h member).mp asks).2 name own).2 word within
    ⟨label, some text, parsed, .inl ⟨handles, ?_⟩⟩
  rintro _ ⟨⟩
  exact ⟨v, listed, (sameLetters_iff.mp same).trans lower⟩

section Sample

/-- A parameter with a default and a capital letter in its alias. -/
def habitat : ParameterHandler :=
  { Parameters.plain "habitat" ["Biome"] (fun _ => true)
      (fun argument => .ok (.equalsText (.of "habitat") argument.value)) with
    standIn := fun _ _ _ => .ok (some (⟨"Biome", "plains"⟩, [.equalsText (.of "habitat") "plains"])) }

def withHabitat : Compiler :=
  withParameters .standard (Registry.builtinParameters .standard default ++ [habitat]) []

/-- The time has its alias in lower case and is withdrawn; the habitat stands in. -/
theorem time_withdrawn : Settings.standard.defaultsEnabled = true ∧
    ∃ (session : Session) (compiled : Compiled) (made : List Call),
      withHabitat.prepare clock (.start .console .utc) ["-ID=x, T"] = (session, .ok compiled) ∧
      Parameters.time "3d" ∉ made.map Call.handler ∧ habitat ∈ made.map Call.handler ∧
      compiled.defaults = made.filterMap Call.used? := by
  have accepted : (withHabitat.prepare clock (.start .console .utc) ["-ID=x, T"]).2.isOk = true := by
    decide +kernel
  obtain ⟨compiled, prepared⟩ := prepare_isOk accepted
  obtain ⟨p, made, -, -, announced, -, asked, ignored⟩ := default_asked_iff .standard
    (Registry.builtinParameters .standard default ++ [habitat]) [] clock (.start .console .utc) _
    ["-ID=x, T"] compiled rfl prepared
  have parsed : Word.parse? "-ID=x, T" = some (.flag "ID" (some "x, T")) := by decide +kernel
  refine ⟨rfl, _, compiled, made, prepared, ?_, ?_, announced⟩
  · exact ignored _ (List.mem_append_left _ (Registry.time_mem .standard default)) "t" (by decide)
      (by decide) _ List.mem_cons_self "ID" "x, T" parsed (by decide) "T" (by decide +kernel)
      (by decide)
  · refine (asked habitat (by simp)).mpr ⟨by decide +kernel, ?_⟩
    intro name own
    refine ⟨rfl, ?_⟩
    rintro word within withdrawn
    cases List.mem_singleton.mp within
    have lifts : ¬ (Flags.global.handles "ID" = true ∨
        (Flags.selection fun _ => none).handles "ID" = true) := by decide
    rcases withdraws_of_flag parsed withdrawn with ⟨-, listed⟩ | ⟨-, lifting⟩
    · obtain ⟨v, member, same⟩ := listed _ rfl
      have values : ∀ v ∈ Text.values "x, T", ∀ name ∈ habitat.name :: habitat.aliases,
          Text.lower v ≠ name := by decide +kernel
      exact values v member name own same
    · exact lifts lifting

/-- An alias with a capital letter is not withdrawn, even as it is spelled. -/
theorem capital_alias_kept :
    (Registry.builtin .standard default).addParameter habitat = .ok withHabitat.registry ∧
    "Biome" ∈ habitat.aliases ∧
    ∃ session compiled, withHabitat.prepare clock (.start .console .utc) ["-id=Biome"] =
        (session, .ok compiled) ∧ ⟨"Biome", "plains"⟩ ∈ compiled.defaults := by
  have free : (Registry.builtin .standard default).conflict? habitat = none := by decide +kernel
  have added : (Registry.builtin .standard default).addParameter habitat =
      .ok withHabitat.registry := by
    rw [Registry.addParameter, free]
    rfl
  have accepted : (withHabitat.prepare clock (.start .console .utc) ["-id=Biome"]).2.isOk = true := by
    decide +kernel
  obtain ⟨compiled, prepared⟩ := prepare_isOk accepted
  have announced : (withHabitat.prepare clock (.start .console .utc) ["-id=Biome"]).2.toOption.map
      Compiled.defaults = some [⟨"t", "3d"⟩, ⟨"Biome", "plains"⟩] := by decide +kernel
  rw [prepared] at announced
  refine ⟨added, by decide, _, compiled, prepared, ?_⟩
  rw [Option.some_inj.mp announced]
  decide

end Sample

end Compiler
end Search
end AuditLog
