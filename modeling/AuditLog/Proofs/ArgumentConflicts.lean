import AuditLog.Proofs.StandIns

/-! No conflict among the arguments of a search goes unnoticed, but where a later argument under the
same alias took the place of the first; and a conflict that is reported is one, between the refused
argument and what stands for an earlier alias: its first spelling and its last value. -/
namespace AuditLog.Search

/-- Handlers see the alias of a given argument, but not its letter case. -/
def Registry.CaseBlind (registry : Registry) : Prop :=
  ∀ h ∈ registry.parameters, ∀ argument a b, Text.lower a.label = Text.lower b.label →
    a.value = b.value → h.conflicts argument a = h.conflicts argument b

/-- The handler of a word answers with this error of its own accord. -/
def Progress.Refused (now : Instant) (registry : Registry) (p : Progress) (word : String)
    (e : SearchError) : Prop :=
  (∃ argument h, argument? word = some argument ∧
    registry.parameter? argument.label = some h ∧ h.build now p.session argument = .error e) ∨
  ∃ label value h, Word.parse? word = some (.flag label value) ∧
    registry.flag? label = some h ∧ h.apply p.session label value = .error e

/-- The error comes from a handler: that of the first word not taken, or of a parameter asked to stand
in after the last. -/
def Compiler.Raises (compiler : Compiler) (now : Instant) (first : Session) (words : List String)
    (e : SearchError) : Prop :=
  (∃ before word rest p, words = before ++ word :: rest ∧
    (compiler.start first).run now compiler.registry before = (p, none) ∧
    p.Refused now compiler.registry word e) ∨
  ∃ p, (compiler.start first).run now compiler.registry words = (p, none) ∧
    compiler.settings.defaultsEnabled = true ∧
    ∃ h ∈ compiler.registry.parameters, isSettled p.session p.given h = false ∧
      ∃ shown, h.standIn now p.session shown = .error e

section Builtin

open Parameters

theorem Registry.caseBlind_builtin (settings : Settings) (players : Players) :
    (builtin settings players).CaseBlind := by
  intro h member argument a b same _
  have answers (aliases : List String) : answersTo aliases a.label = answersTo aliases b.label :=
    answersTo_congr same aliases
  have among : h ∈ builtinParameters settings players := member
  simp only [builtinParameters, List.mem_cons, List.not_mem_nil, or_false] at among
  rcases among with rfl | rfl | rfl | rfl | rfl | rfl | rfl | rfl | rfl | rfl | rfl | rfl | rfl |
    rfl | rfl | rfl
  case inr.inr.inr.inl => exact answers worldAliases
  case inr.inr.inr.inr.inr.inl => exact answers radiusAliases
  all_goals rfl

def SearchError.isConflict : SearchError → Bool
  | .conflict .. => true
  | _ => false

/-- The parameter never answers an argument with a conflict of its own. -/
def ParameterHandler.Peaceful (h : ParameterHandler) : Prop :=
  ∀ now session argument e, h.build now session argument = .error e → e.isConflict = false

theorem Parameters.peaceful_plain (name : String) (aliases : List String)
    (accepts : String → Bool) {condition : Argument → Except SearchError Condition}
    (fails : ∀ argument e, condition argument = .error e → e.isConflict = false) :
    (plain name aliases accepts condition).Peaceful := by
  intro _ _ argument e refused
  simp only [plain] at refused
  exact fails argument e (error_of_map refused)

theorem Parameters.peaceful_time (standard : String) : (time standard).Peaceful := by
  intro now _ argument e refused
  simp only [time] at refused
  rw [(sinceCutoff_error (error_of_map refused)).2]
  rfl

theorem Parameters.peaceful_radius (standard limit : Nat) : (radius standard limit).Peaceful := by
  intro _ _ _ e refused
  simp only [radius] at refused
  split at refused
  next =>
    cases refused
    rfl
  next =>
    split at refused
    next =>
      cases refused
      rfl
    next => cases refused

theorem Registry.peaceful_builtin {settings : Settings} {players : Players}
    {h : ParameterHandler} (member : h ∈ builtinParameters settings players) : h.Peaceful := by
  have ready (make : Argument → Condition) (argument : Argument) (e : SearchError)
      (refused : Except.ok (make argument) = Except.error e) : e.isConflict = false := by
    cases refused
  simp only [builtinParameters, List.mem_cons, List.not_mem_nil, or_false] at member
  rcases member with rfl | rfl | rfl | rfl | rfl | rfl | rfl | rfl | rfl | rfl | rfl | rfl | rfl |
    rfl | rfl | rfl
  · exact peaceful_plain _ _ _ (ready _)
  · rintro _ _ _ _ ⟨⟩
  · rintro _ _ _ _ ⟨⟩
  · exact peaceful_radius _ _
  · exact peaceful_time _
  · exact peaceful_plain "world" worldAliases isIdentifierList
      (ready fun argument => .oneOf Field.world (Text.values argument.value))
  · exact peaceful_plain _ _ _ (ready _)
  · exact peaceful_plain _ _ _ (ready _)
  · exact peaceful_plain _ _ _ (ready _)
  · exact peaceful_plain _ _ _ (ready _)
  · exact peaceful_plain _ _ _ (ready _)
  · exact peaceful_plain _ _ _ (ready _)
  · exact peaceful_plain _ _ _ (ready _)
  · exact peaceful_plain _ _ _ (ready _)
  -- an address or a choice that cannot be read is an invalid value
  all_goals
    apply peaceful_plain
    intro argument e refused
    split at refused
    · cases refused
    · cases refused
      rfl

theorem Registry.peaceful_flags {settings : Settings} {h : FlagHandler}
    (member : h ∈ builtinFlags settings) {session : Session} {label : String}
    {value : Option String} {e : SearchError} (refused : h.apply session label value = .error e) :
    e.isConflict = false := by
  have order : h = Flags.order → e.isConflict = false := by
    rintro rfl
    simp only [Flags.order] at refused
    split at refused
    · cases refused
      rfl
    · split at refused
      · cases refused
      · cases refused
        rfl
  simp only [builtinFlags, List.mem_append, List.mem_cons, List.not_mem_nil, or_false] at member
  rcases member with (rfl | rfl | rfl | rfl | rfl) | defaults
  case inl.inr.inr.inr.inr => exact order rfl
  case inr =>
    split at defaults
    · simp only [List.mem_cons, List.not_mem_nil, or_false] at defaults
      rcases defaults with rfl | rfl
      · simp only [Flags.ignoreDefault] at refused
        split at refused <;> cases refused
      · cases refused
    · cases defaults
  all_goals cases refused

/-- The built-in handlers leave conflicts to the compiler. -/
theorem Compiler.builtin_peaceful (settings : Settings) (players : Players) (now : Instant)
    (first : Session) (words : List String) (label value otherLabel otherValue : String) :
    ¬ (builtin settings players).Raises now first words
      (.conflict label value otherLabel otherValue) := by
  rintro (⟨_, _, _, _, -, -, ⟨_, h, -, found, refused⟩ | ⟨_, _, h, -, found, refused⟩⟩ |
    ⟨_, -, -, h, member, -, _, refused⟩)
  · cases Registry.peaceful_builtin (Registry.parameter?_some found).1 _ _ _ _ refused
  · cases Registry.peaceful_flags (Registry.flag?_some found).1 refused
  · cases (Registry.standIn_error member refused).2.2

end Builtin

namespace Progress

variable {now : Instant} {registry : Registry} {p q : Progress}

/-- A word is refused for a conflict with something given, if not by its handler itself. -/
theorem step_conflict {word label value otherLabel otherValue : String}
    (refused : p.step now registry word = .error (.conflict label value otherLabel otherValue)) :
    (∃ h, argument? word = some ⟨label, value⟩ ∧ registry.parameter? label = some h ∧
      ⟨otherLabel, otherValue⟩ ∈ p.given ∧
      h.conflicts ⟨label, value⟩ ⟨otherLabel, otherValue⟩ = true) ∨
    p.Refused now registry word (.conflict label value otherLabel otherValue) := by
  unfold step at refused
  split at refused
  next => cases refused
  next flag text parsed =>
    unfold applyFlag at refused
    split at refused
    next => cases refused
    next h found =>
      split at refused
      next => cases refused
      next =>
        split at refused
        next => cases refused
        next =>
          exact .inr (.inr ⟨flag, text, h, parsed, found, error_of_map refused⟩)
  next argument parsed =>
    unfold applyParameter at refused
    split at refused
    next => cases refused
    next h found =>
      split at refused
      next => cases refused
      next =>
        split at refused
        next => cases refused
        next =>
          split at refused
          next other met =>
            cases refused
            exact .inl ⟨h, argument?_eq_some.mpr parsed, found, List.mem_of_find?_eq_some met,
              List.find?_some met⟩
          next =>
            exact .inr (.inl ⟨argument, h, argument?_eq_some.mpr parsed, found,
              error_of_map refused⟩)
  next => cases refused

/-- An argument is taken only if its handler meets no conflict with what is given. -/
theorem free_of_step {word : String} (taken : p.step now registry word = .ok q)
    {argument : Argument} (parsed : argument? word = some argument) {h : ParameterHandler}
    (found : registry.parameter? argument.label = some h) :
    ∀ other ∈ p.given, h.conflicts argument other = false := by
  have word := argument?_eq_some.mp parsed
  rcases step_cases taken with ⟨blank, -⟩ | ⟨label, value, _, _, _, flag, -⟩ |
    ⟨_, _, _, asked, found', free, -⟩
  · rw [word] at blank
    cases blank
  · rw [word] at flag
    cases flag
  · rw [word] at asked
    cases asked
    rw [found] at found'
    cases found'
    intro other member
    exact (Bool.not_eq_true _).mp (List.find?_eq_none.mp free other member)

theorem arguments_append (before after : List String) :
    arguments (before ++ after) = arguments before ++ arguments after :=
  List.filterMap_append

theorem arguments_cons {word : String} {argument : Argument}
    (parsed : argument? word = some argument) (rest : List String) :
    arguments (word :: rest) = argument :: arguments rest :=
  List.filterMap_cons_some parsed

/-- Two arguments that conflict are both taken only if another came between under the alias of the
first. -/
theorem replaced_between (blind : registry.CaseBlind) (start : p.given = [])
    {before between after : List String} {first second : String}
    (taken : p.run now registry (before ++ first :: (between ++ second :: after)) = (q, none))
    {a b : Argument} (parsed : argument? first = some a) (parsed' : argument? second = some b)
    {h : ParameterHandler} (found : registry.parameter? b.label = some h)
    (conflict : h.conflicts b a = true) :
    ∃ word ∈ between, ∃ c, argument? word = some c ∧ Text.sameLetters c.label a.label = true := by
  have parts : before ++ first :: (between ++ second :: after) =
      (before ++ first :: between) ++ second :: after := by simp
  rw [parts] at taken
  obtain ⟨r, ran, taken⟩ := run_append taken
  rw [run] at taken
  split at taken
  next _ stepped =>
    by_contra none
    have last : ∀ other ∈ arguments between, Text.sameLetters other.label a.label = false := by
      intro c member
      obtain ⟨word, within, asked⟩ := mem_arguments.mp member
      rw [← Bool.not_eq_true]
      intro same
      exact none ⟨word, within, c, asked, same⟩
    obtain ⟨label, same, left⟩ := gather_last (arguments before) last
    rw [← arguments_cons parsed, ← arguments_append, ← start, ← given_run ran] at left
    have free := free_of_step stepped parsed' found _ left
    have member := (Registry.parameter?_some found).1
    rw [blind h member b ⟨label, a.value⟩ a same rfl, conflict] at free
    cases free
  next => cases taken

end Progress

/-- Conflicts are noticed exactly. Of two arguments in an accepted search the later does not conflict
with the earlier, unless another came between under the alias of the earlier and took its place. If
a search is refused for a conflict, then at one of its arguments, whose handler does conflict with
the other pair: the first spelling of an alias given before and the last value given under it. (What
the handler of that word, or of a default, gives as such an error itself is passed on; no built-in
one does.) -/
theorem conflicts_exact (compiler : Compiler) (now : Instant) (session : Session)
    (words : List String) (blind : compiler.registry.CaseBlind) :
    (∀ after compiled, compiler.prepare now session words = (after, .ok compiled) →
      ∀ before first between second rest a b h,
        words = before ++ first :: (between ++ second :: rest) →
        argument? first = some a → argument? second = some b →
        compiler.registry.parameter? b.label = some h → h.conflicts b a = true →
        ∃ word ∈ between, ∃ c, argument? word = some c ∧
          Text.sameLetters c.label a.label = true) ∧
    ∀ after label value otherLabel otherValue, compiler.prepare now session words =
        (after, .error (.conflict label value otherLabel otherValue)) →
      (∃ before word rest h first last, words = before ++ word :: rest ∧
        argument? word = some ⟨label, value⟩ ∧ compiler.registry.parameter? label = some h ∧
        h.conflicts ⟨label, value⟩ ⟨otherLabel, otherValue⟩ = true ∧
        (under otherLabel (arguments before)).head? = some first ∧ first.label = otherLabel ∧
        (under otherLabel (arguments before)).getLast? = some last ∧ last.value = otherValue) ∨
      compiler.Raises now session words (.conflict label value otherLabel otherValue) := by
  constructor
  · rintro after compiled prepared before first between second rest a b h rfl parsed parsed' found
      conflict
    obtain ⟨p, made, taken, -⟩ := Compiler.prepare_accepted prepared
    exact Progress.replaced_between blind rfl taken parsed parsed' found conflict
  · intro after label value otherLabel otherValue refused
    unfold Compiler.prepare at refused
    split at refused
    next p e stopped =>
      cases (Prod.mk.inj refused).2
      obtain ⟨before, word, rest, rfl, ran, stepped⟩ := Progress.run_stopped stopped
      rcases Progress.step_conflict stepped with ⟨h, parsed, found, member, conflict⟩ | raises
      · have given : p.given = Progress.gather [] (arguments before) := Progress.given_run ran
        rw [given] at member
        obtain ⟨first, last, head, spelled, final, valued⟩ := Progress.mem_gather member
        exact .inl ⟨before, word, rest, h, first, last, rfl, parsed, found, conflict, head, spelled,
          final, valued⟩
      · exact .inr (.inl ⟨before, word, rest, p, rfl, ran, raises⟩)
    next p taken =>
      have finished := (Prod.mk.inj refused).2
      rw [Compiler.finish_eq] at finished
      exact .inr (.inr ⟨p, taken, Compiler.callsAfter_error (error_of_map finished)⟩)

section Sample

/-- May not follow a time of one hour. -/
def recheck : ParameterHandler :=
  { Parameters.plain "recheck" ["x"] (fun _ => true)
      (fun argument => .ok (.equalsText (.of "x") argument.value)) with
    conflicts := fun _ given => Text.sameLetters given.label "t" && given.value == "1h" }

def recheckCompiler : Compiler := ⟨⟨[Parameters.time "3d", recheck], []⟩, .standard⟩

/-- The time of one hour is given first and taken back. Then a world and a radius. -/
theorem conflicts_noticed :
    recheckCompiler.registry.CaseBlind ∧
    (∃ session compiled, recheckCompiler.prepare clock (.start .console .utc)
        ["t:1h", "T:2h", "x:1"] = (session, .ok compiled) ∧
      recheck.conflicts ⟨"x", "1"⟩ ⟨"t", "1h"⟩ = true ∧
      ∃ word ∈ ["T:2h"], ∃ c, argument? word = some c ∧ Text.sameLetters c.label "t" = true) ∧
    (Registry.builtin .standard default).CaseBlind ∧
    ∃ session, (Compiler.builtin .standard default).prepare clock (.start digger .utc)
        ["W:nether", "c:tnt", "w:end", "R:5"] =
        (session, .error (.conflict "R" "5" "W" "end")) ∧
      ∃ before word rest h first last,
        ["W:nether", "c:tnt", "w:end", "R:5"] = before ++ word :: rest ∧
        argument? word = some ⟨"R", "5"⟩ ∧
        (Registry.builtin .standard default).parameter? "R" = some h ∧
        h.conflicts ⟨"R", "5"⟩ ⟨"W", "end"⟩ = true ∧
        (under "W" (arguments before)).head? = some first ∧ first.label = "W" ∧
        (under "W" (arguments before)).getLast? = some last ∧ last.value = "end" := by
  have blind : recheckCompiler.registry.CaseBlind := by
    intro h member argument a b same value
    have among : h ∈ [Parameters.time "3d", recheck] := member
    simp only [List.mem_cons, List.not_mem_nil, or_false] at among
    rcases among with rfl | rfl
    · rfl
    · simp only [recheck, Text.sameLetters, same, value]
  have accepted : (recheckCompiler.prepare clock (.start .console .utc)
      ["t:1h", "T:2h", "x:1"]).2.isOk = true := by decide +kernel
  obtain ⟨compiled, prepared⟩ := Compiler.prepare_isOk accepted
  obtain ⟨noticed, -⟩ := conflicts_exact recheckCompiler clock (.start .console .utc)
    ["t:1h", "T:2h", "x:1"] blind
  have blind' := Registry.caseBlind_builtin .standard default
  obtain ⟨-, reported⟩ := conflicts_exact (.builtin .standard default) clock (.start digger .utc)
    ["W:nether", "c:tnt", "w:end", "R:5"] blind'
  have refused := Compiler.prepare_error (show ((Compiler.builtin .standard default).prepare clock
    (.start digger .utc) ["W:nether", "c:tnt", "w:end", "R:5"]).2.map (fun _ => ()) =
      .error (.conflict "R" "5" "W" "end") by decide +kernel)
  refine ⟨blind, ⟨_, compiled, prepared, by decide +kernel, ?_⟩, blind', _, refused, ?_⟩
  · exact noticed _ _ prepared [] "t:1h" ["T:2h"] "x:1" [] ⟨"t", "1h"⟩ ⟨"x", "1"⟩ recheck rfl
      (by decide +kernel) (by decide +kernel) (by rfl) (by decide +kernel)
  · exact (reported _ _ _ _ _ refused).resolve_right
      (Compiler.builtin_peaceful .standard default clock _ _ _ _ _ _)

end Sample

end AuditLog.Search
