import AuditLog.Proofs.ConsoleLines
import AuditLog.Proofs.QueryRows
import AuditLog.Proofs.RecordPaths
import Mathlib.Data.List.DropRight

/-! What a console line puts into a record. The words of a line do not depend on the blanks around
and between them. The words after the event are paths and values; a value is found in the record
where its path leads, unless a later path leads the same way, and nothing else is found there. -/
namespace AuditLog

namespace Text

/-- The pieces of a cut that are not empty. -/
def runs (p : Char → Bool) (cs : List Char) : List (List Char) :=
  (splitWhere p cs).filter (!·.isEmpty)

section Runs

variable {p : Char → Bool} {before rest cs : List Char} {c : Char}

theorem words_eq_runs (s : String) : words s = (runs isBlank s.toList).map String.ofList := rfl

theorem splitWhere_concat (stop : p c = true) :
    splitWhere p (cs ++ [c]) = splitWhere p cs ++ [[]] := by
  induction cs with
  | nil => simp [splitWhere, stop]
  | cons first others ih =>
    rw [List.cons_append, splitWhere, splitWhere, ih]
    by_cases here : p first = true
    · simp [here]
    · obtain ⟨piece, pieces, cut⟩ := List.exists_cons_of_ne_nil (splitWhere_ne_nil p others)
      simp [here, cut]

theorem runs_cons (stop : p c = true) : runs p (c :: cs) = runs p cs := by
  simp [runs, splitWhere, stop]

theorem runs_concat (stop : p c = true) : runs p (cs ++ [c]) = runs p cs := by
  simp [runs, splitWhere_concat stop]

theorem runs_run (run : ∀ c ∈ cs, p c = false) (present : cs ≠ []) : runs p cs = [cs] := by
  simp [runs, splitWhere_run run, present]

theorem runs_append (run : ∀ c ∈ before, p c = false) (present : before ≠ [])
    (stop : p c = true) : runs p (before ++ c :: rest) = before :: runs p rest := by
  simp [runs, splitWhere_append run stop, present]

theorem runs_dropWhile : runs p (cs.dropWhile p) = runs p cs := by
  induction cs with
  | nil => rfl
  | cons first others ih =>
    by_cases here : p first = true
    · rw [List.dropWhile_cons_of_pos here, ih, runs_cons here]
    · rw [List.dropWhile_cons_of_neg here]

theorem runs_rdropWhile : runs p (cs.rdropWhile p) = runs p cs := by
  induction cs using List.reverseRecOn with
  | nil => rfl
  | append_singleton others last ih =>
    by_cases here : p last = true
    · rw [List.rdropWhile_concat_pos _ _ _ here, ih, runs_concat here]
    · rw [List.rdropWhile_concat_neg _ _ _ here]

theorem runs_trimList : runs isBlank (trimList cs) = runs isBlank cs := by
  change runs isBlank ((cs.dropWhile isBlank).rdropWhile isBlank) = runs isBlank cs
  rw [runs_rdropWhile, runs_dropWhile]

/-- Trimmed text does not start with a blank. -/
theorem head_trimList (text : trimList cs = c :: rest) : isBlank c = false := by
  have leads : trimList cs <+: cs.dropWhile isBlank := List.rdropWhile_prefix _ _
  rw [text] at leads
  obtain ⟨more, whole⟩ := leads
  have first := List.head?_dropWhile_not isBlank cs
  rw [← whole] at first
  simpa using first

theorem cutWhere_cases (p : Char → Bool) (cs : List Char) :
    ((∀ c ∈ cs, p c = false) ∧ cutWhere p cs = none) ∨
      ∃ before c rest, cs = before ++ c :: rest ∧ (∀ d ∈ before, p d = false) ∧ p c = true ∧
        cutWhere p cs = some (before, rest) := by
  induction cs with
  | nil => exact .inl ⟨by simp, rfl⟩
  | cons first others ih =>
    by_cases here : p first = true
    · have empty : ∀ d ∈ ([] : List Char), p d = false := by simp
      exact .inr ⟨[], first, others, rfl, empty, here, cutWhere_append empty here⟩
    · rw [Bool.not_eq_true] at here
      rcases ih with ⟨run, -⟩ | ⟨before, c, rest, rfl, run, stop, -⟩
      · have all : ∀ d ∈ first :: others, p d = false := List.forall_mem_cons.mpr ⟨here, run⟩
        exact .inl ⟨all, cutWhere_run all⟩
      · have all : ∀ d ∈ first :: before, p d = false := List.forall_mem_cons.mpr ⟨here, run⟩
        exact .inr ⟨first :: before, c, rest, rfl, all, stop, cutWhere_append all stop⟩

end Runs

theorem cutFirst_eq_some {s before rest : String} {separator : Char} :
    cutFirst separator s = some (before, rest) ↔
      s.toList = before.toList ++ separator :: rest.toList ∧ separator ∉ before.toList := by
  constructor
  · intro cut
    rw [cutFirst] at cut
    obtain ⟨-, none⟩ | ⟨front, c, back, text, run, stop, some⟩ :=
      cutWhere_cases (· == separator) s.toList
    · rw [none] at cut
      cases cut
    · rw [some] at cut
      cases cut
      obtain rfl := beq_iff_eq.mp stop
      refine ⟨by simpa using text, ?_⟩
      intro member
      rw [String.toList_ofList] at member
      simpa using run c member
  · rintro ⟨text, run⟩
    exact cutFirst_append text run

end Text

/-- Only the dots of a text do not name anything. -/
theorem Path.segments_parse_eq_nil {key : String} :
    (Path.parse key).segments = [] ↔ ∀ c ∈ key.toList, c = '.' := by
  change List.filter _ (List.map _ _) = [] ↔ _
  induction key.toList with
  | nil => simp [Text.splitWhere]
  | cons c rest ih =>
    rw [List.forall_mem_cons, ← ih, Text.splitWhere]
    by_cases dot : c = '.'
    · simp [dot]
    · obtain ⟨piece, pieces, cut⟩ :=
        List.exists_cons_of_ne_nil (Text.splitWhere_ne_nil (· == '.') rest)
      simp [dot, cut]

namespace Console.Command

/-- A line is its first word, the command, and the other words, its arguments. -/
theorem parse_of_words {line word : String} {rest : List String}
    (text : Text.words line = word :: rest) :
    ∃ arguments, Text.words arguments = rest ∧
      parse line = (ofWord (Text.lower word) arguments).map some := by
  have pieces : (Text.runs Text.isBlank (Text.trimList line.toList)).map String.ofList =
      word :: rest := by
    rw [Text.runs_trimList, ← Text.words_eq_runs, text]
  rw [parse]
  split
  next empty =>
    rw [empty] at pieces
    cases pieces
  next cs present =>
    obtain ⟨run, uncut⟩ | ⟨before, c, others, cut, run, stop, found⟩ :=
      Text.cutWhere_cases Text.isBlank (Text.trimList line.toList)
    · rw [Text.runs_run run present, List.map_singleton, List.cons.injEq] at pieces
      obtain ⟨rfl, rfl⟩ := pieces
      refine ⟨"", rfl, ?_⟩
      rw [uncut]
      rfl
    · have leads : before ≠ [] := by
        rintro rfl
        have dark := Text.head_trimList cut
        rw [stop] at dark
        cases dark
      rw [cut, Text.runs_append run leads stop, List.map_cons, List.cons.injEq] at pieces
      obtain ⟨rfl, rfl⟩ := pieces
      refine ⟨String.ofList (Text.trimList others), ?_, ?_⟩
      · rw [Text.words_eq_runs, String.toList_ofList, Text.runs_trimList]
      · rw [found]
        rfl

/-- What is read from a line is a record command when the first word says so. -/
theorem parse_of_record_words {line word : String} {rest : List String}
    (text : Text.words line = word :: rest) (command : Text.lower word = "record") :
    ∃ arguments, Text.words arguments = rest ∧ parse line = (recordOf arguments).map some := by
  obtain ⟨arguments, words, parsed⟩ := parse_of_words text
  rw [command] at parsed
  exact ⟨arguments, words, parsed⟩

/-- The word is a key and a value on the two sides of its first equals sign. -/
structure Assigns (token key value : String) : Prop where
  text : token.toList = key.toList ++ '=' :: value.toList
  keyed : key ≠ ""
  valued : value ≠ ""
  run : '=' ∉ key.toList

/-- The key is more than dots, so that its path leads somewhere. -/
def Named (key : String) : Prop := ∃ c ∈ key.toList, c ≠ '.'

instance (key : String) : Decidable (Named key) :=
  decidable_of_iff (key.toList.any (· != '.') = true) (by simp [Named])

theorem named_iff {key : String} : Named key ↔ (Path.parse key).segments ≠ [] := by
  rw [ne_eq, Path.segments_parse_eq_nil, Named]
  push Not
  rfl

theorem assignment?_of_assigns {token key value : String} (assigns : Assigns token key value) :
    assignment? token = .ok (.parse key, valueOf value) := by
  rw [assignment?, Text.cutFirst_append assigns.text assigns.run]
  simp [assigns.keyed, assigns.valued]

theorem assignment?_eq_ok {token : String} {entry : Path × Datum} :
    assignment? token = .ok entry ↔
      ∃ key value, Assigns token key value ∧ entry = (.parse key, valueOf value) := by
  constructor
  · intro read
    rw [assignment?] at read
    split at read
    next key value cut =>
      split at read
      next => cases read
      next present =>
        obtain ⟨text, run⟩ := Text.cutFirst_eq_some.mp cut
        simp only [Bool.or_eq_true, String.isEmpty_iff, not_or] at present
        exact ⟨key, value, ⟨text, present.1, present.2, run⟩, (Except.ok.inj read).symm⟩
    next => cases read
  · rintro ⟨key, value, assigns, rfl⟩
    exact assignment?_of_assigns assigns

/-- What is read from a word in the middle of others stands in the middle of what is read from
them. -/
theorem mapM_assignment?_cut {before after : List String} {token : String}
    {entry : Path × Datum} {entries : List (Path × Datum)} (here : assignment? token = .ok entry)
    (read : (before ++ token :: after).mapM assignment? = .ok entries) :
    ∃ first later, entries = first ++ entry :: later ∧ after.mapM assignment? = .ok later := by
  rw [List.mapM_append, List.mapM_cons] at read
  obtain ⟨first, -, read⟩ := bind_ok read
  obtain ⟨others, rest, read⟩ := bind_ok read
  obtain ⟨found, same, rest⟩ := bind_ok rest
  rw [here] at same
  cases same
  obtain ⟨later, tail, rest⟩ := bind_ok rest
  cases rest
  cases read
  exact ⟨first, later, rfl, tail⟩

theorem assigns_of_mem {tokens : List String} {entries : List (Path × Datum)}
    (read : tokens.mapM assignment? = .ok entries) {entry : Path × Datum}
    (member : entry ∈ entries) :
    ∃ token ∈ tokens, ∃ key value,
      Assigns token key value ∧ entry = (.parse key, valueOf value) := by
  induction tokens generalizing entries with
  | nil =>
    cases read
    cases member
  | cons token rest ih =>
    rw [List.mapM_cons] at read
    obtain ⟨first, here, read⟩ := bind_ok read
    obtain ⟨later, others, read⟩ := bind_ok read
    cases read
    rcases List.mem_cons.mp member with rfl | member
    · exact ⟨token, List.mem_cons_self, assignment?_eq_ok.mp here⟩
    · obtain ⟨other, among, assigned⟩ := ih others member
      exact ⟨other, List.mem_cons_of_mem _ among, assigned⟩

/-- What a record command is read from. -/
theorem recordOf_cases (arguments : String) :
    ((Text.words arguments = [] ∨ ∃ token ∈ (Text.words arguments).tail,
        ¬ ∃ key value, Assigns token key value) ∧ ∃ problem, recordOf arguments = .error problem) ∨
      ∃ event tokens entries, Text.words arguments = event :: tokens ∧
        (∀ token ∈ tokens, ∃ key value, Assigns token key value) ∧
        tokens.mapM assignment? = .ok entries ∧
        recordOf arguments = .ok (.record (Text.lower event) (Record.setAll [] entries)) := by
  rw [recordOf]
  cases words : Text.words arguments with
  | nil => exact .inl ⟨.inl rfl, _, rfl⟩
  | cons event tokens =>
    simp only [List.tail_cons]
    have assigned (token : String) :
        (∃ entry, assignment? token = .ok entry) ↔ ∃ key value, Assigns token key value := by
      simp only [assignment?_eq_ok]
      constructor
      · rintro ⟨entry, key, value, assigns, -⟩
        exact ⟨key, value, assigns⟩
      · rintro ⟨key, value, assigns⟩
        exact ⟨_, key, value, assigns, rfl⟩
    have accepted := mapM_ok_iff assignment? tokens
    simp only [assigned] at accepted
    cases read : tokens.mapM assignment? with
    | error problem =>
      rw [read] at accepted
      refine .inl ⟨.inr ?_, problem, rfl⟩
      by_contra none
      push Not at none
      obtain ⟨entries, absurd⟩ := accepted.mpr none
      cases absurd
    | ok entries =>
      exact .inr ⟨event, tokens, entries, rfl, accepted.mp ⟨entries, read⟩, read, rfl⟩

/-- A line is refused when it names no event or a word after the event assigns nothing. Otherwise
each value is found where its key leads, unless a later key leads the same way, and whatever is
found lies on the way to a value. -/
theorem record_line_kept {line word : String} {rest : List String}
    (text : Text.words line = word :: rest) (command : Text.lower word = "record") :
    ((∃ problem, parse line = .error problem) ↔
      rest = [] ∨ ∃ token ∈ rest.tail, ¬ ∃ key value, Assigns token key value) ∧
    ∀ result, parse line = .ok result →
      ∃ event tokens data, rest = event :: tokens ∧
        result = some (.record (Text.lower event) data) ∧
        (∀ before token after key value, tokens = before ++ token :: after →
          Assigns token key value → Named key →
          (∀ later ∈ after, ∀ other, (∃ v, Assigns later other v) → Named other →
            ¬ Record.OneWay (.parse other) (.parse key)) →
          Record.get? data (.parse key) = some (valueOf value)) ∧
        ∀ path, (Record.get? data path).isSome →
          ∃ token ∈ tokens, ∃ key value, Assigns token key value ∧
            path.segments <+: (Path.parse key).segments := by
  obtain ⟨arguments, words, parsed⟩ := parse_of_record_words text command
  obtain ⟨refused, problem, failed⟩ | ⟨event, tokens, entries, split, assigned, read, made⟩ :=
    recordOf_cases arguments
  · rw [words] at refused
    rw [parsed, failed]
    exact ⟨⟨fun _ => refused, fun _ => ⟨problem, rfl⟩⟩, fun result ok => by cases ok⟩
  · rw [words] at split
    subst split
    rw [parsed, made]
    constructor
    · constructor
      · rintro ⟨problem, failed⟩
        cases failed
      · rintro (empty | ⟨token, member, unassigned⟩)
        · cases empty
        · exact absurd (assigned token member) unassigned
    · rintro result ok
      cases ok
      refine ⟨event, tokens, _, rfl, rfl, ?_, ?_⟩
      · rintro before token after key value rfl assigns named apart
        obtain ⟨first, later, rfl, tail⟩ :=
          mapM_assignment?_cut (assignment?_of_assigns assigns) read
        rw [Record.setAll_append]
        change Record.get? (Record.setAll (Record.set _ _ _) later) _ = _
        rw [Record.get?_setAll_apart]
        · exact Record.get?_set_self _ (named_iff.mp named)
        · intro entry member present
          obtain ⟨other, among, key', value', assigns', rfl⟩ := assigns_of_mem tail member
          exact apart other among key' ⟨value', assigns'⟩ (named_iff.mpr present)
      · intro path found
        obtain ⟨entry, member, leads⟩ := Record.get?_setAll_isSome (by
          intro entry member
          obtain ⟨_, _, key, value, _, rfl⟩ := assigns_of_mem read member
          exact record?_valueOf value) found
        obtain ⟨token, among, key, value, assigns, rfl⟩ := assigns_of_mem read member
        exact ⟨token, among, key, value, assigns, leads⟩

theorem both_coordinates_kept :
    ∃ data, parse " record Break at.x=1  at.y=a=b at.x.=2 " = .ok (some (.record "break" data)) ∧
      Record.get? data (.parse "at.y") = some (.text "a=b") ∧
      Record.get? data (.parse "at.x") = some (.int 2) := by
  have first : Assigns "at.x=1" "at.x" "1" := ⟨by decide, by decide, by decide, by decide⟩
  have second : Assigns "at.y=a=b" "at.y" "a=b" := ⟨by decide, by decide, by decide, by decide⟩
  have third : Assigns "at.x.=2" "at.x." "2" := ⟨by decide, by decide, by decide, by decide⟩
  have words : Text.words " record Break at.x=1  at.y=a=b at.x.=2 " =
      "record" :: ["Break", "at.x=1", "at.y=a=b", "at.x.=2"] := by decide
  obtain ⟨refused, accepted⟩ := record_line_kept words (by decide)
  cases parsed : parse " record Break at.x=1  at.y=a=b at.x.=2 " with
  | error problem =>
    rcases refused.mp ⟨problem, parsed⟩ with empty | ⟨token, member, unassigned⟩
    · cases empty
    · simp only [List.tail_cons, List.mem_cons, List.not_mem_nil, or_false] at member
      rcases member with rfl | rfl | rfl
      · exact absurd ⟨_, _, first⟩ unassigned
      · exact absurd ⟨_, _, second⟩ unassigned
      · exact absurd ⟨_, _, third⟩ unassigned
  | ok result =>
    obtain ⟨event, tokens, data, split, rfl, kept, -⟩ := accepted result parsed
    cases split
    have read : valueOf "a=b" = .text "a=b" :=
      valueOf_eq_text.mpr ⟨by decide, (spaced_eq_self.mpr (by decide)).symm⟩
    refine ⟨data, rfl, ?_, ?_⟩
    · rw [← read]
      refine kept ["at.x=1"] _ ["at.x.=2"] _ _ rfl second (by decide) ?_
      rintro later member other ⟨v, assigns⟩ -
      obtain rfl := List.mem_singleton.mp member
      have read := (assignment?_of_assigns assigns).symm.trans (assignment?_of_assigns third)
      have same : Path.parse other = .parse "at.x." := congrArg Prod.fst (Except.ok.inj read)
      rw [same]
      decide
    · refine (kept ["at.x=1", "at.y=a=b"] _ [] _ _ rfl third (by decide) ?_).trans rfl
      intro later member
      cases member

/-- A key of nothing but dots is no path, and its value is not kept. -/
theorem dots_lead_nowhere :
    Text.words "record break .=5" = ["record", "break", ".=5"] ∧ Assigns ".=5" "." "5" ∧
      parse "record break .=5" = .ok (some (.record "break" [])) ∧
      Record.get? [] (.parse ".") ≠ some (valueOf "5") := by
  refine ⟨by decide, ⟨by decide, by decide, by decide, by decide⟩, rfl, ?_⟩
  intro kept
  cases kept

end Console.Command
end AuditLog
