import AuditLog.Proofs.ConsoleLines
import AuditLog.Proofs.DefaultTime
import AuditLog.Proofs.GroupedDays
import AuditLog.Proofs.OneValueRecords
import AuditLog.Service

/-! Whether the console finds what it records. An event with one value is recorded, written and
searched for by that value, all at one clock value. The search returns the record exactly when the
value is read as text, the search compares that text as it was recorded, and the record could be
kept. -/
namespace AuditLog

/-- Lower-case letters, digits and the marks that a word of a search may hold. -/
structure Console.PlainValue (value : String) : Prop where
  present : value ≠ ""
  letters : ∀ c ∈ value.toList, c.isLower = true ∨ c.isDigit = true ∨ c ∈ ['_', '-', '.', ':']

instance (value : String) : Decidable (Console.PlainValue value) :=
  decidable_of_iff (value ≠ "" ∧ value.toList.all (fun c =>
      c.isLower = true ∨ c.isDigit = true ∨ c ∈ ['_', '-', '.', ':']) = true) <| by
    simp only [List.all_eq_true, decide_eq_true_eq]
    exact ⟨fun ⟨present, letters⟩ => ⟨present, letters⟩, fun plain => ⟨plain.1, plain.2⟩⟩

namespace Console.PlainValue

variable {value : String} (plain : Console.PlainValue value)

include plain

/-- A character of the value is neither a blank nor a comma nor an upper-case letter. -/
theorem letter {c : Char} (member : c ∈ value.toList) : Text.isBlank c = false ∧ c ≠ ',' ∧
    c.toLower = c ∧ Search.Parameters.isIdentifierChar c = true := by
  have named (alphanum : (c.isUpper || c.isLower || c.isDigit) = true) :
      Search.Parameters.isIdentifierChar c = true := by
    have kind : c.isAlphanum = true := alphanum
    rw [Search.Parameters.isIdentifierChar, kind]
    rfl
  have alphanum (range : 97 ≤ c.toNat ∧ c.toNat ≤ 122 ∨ 48 ≤ c.toNat ∧ c.toNat ≤ 57) :
      Text.isBlank c = false ∧ c ≠ ',' ∧ c.toLower = c := by
    refine ⟨Text.isBlank_printable (by omega) (by omega), ?_, Text.toLower_eq (by omega)⟩
    rintro rfl
    revert range
    decide
  rcases plain.letters c member with lower | digit | mark
  · have bounds : (decide (c.val ≥ 'a'.val) && decide (c.val ≤ 'z'.val)) = true := lower
    rw [Bool.and_eq_true, decide_eq_true_eq, decide_eq_true_eq] at bounds
    obtain ⟨dark, other, same⟩ := alphanum (.inl bounds)
    exact ⟨dark, other, same, named (by rw [lower, Bool.or_true, Bool.true_or])⟩
  · obtain ⟨dark, other, same⟩ := alphanum (.inr (Char.isDigit_iff_toNat.mp digit))
    exact ⟨dark, other, same, named (by rw [digit, Bool.or_true])⟩
  · simp only [List.mem_cons, List.not_mem_nil, or_false] at mark
    rcases mark with rfl | rfl | rfl | rfl <;> exact ⟨rfl, by decide, rfl, rfl⟩

theorem solid : Text.Solid value where
  unblank _ member := (plain.letter member).1
  present := String.toList_eq_nil_iff.not.mpr plain.present

theorem uncut : ',' ∉ value.toList := fun comma => (plain.letter comma).2.1 rfl

theorem lower_eq : Text.lower value = value := by
  have same : value.toList.map Char.toLower = value.toList.map id := by
    apply List.map_congr_left
    intro c member
    exact (plain.letter member).2.2.1
  rw [Text.lower, same, List.map_id, String.ofList_toList]

theorem identifiers : Search.Parameters.isIdentifierList value = true := by
  have named : value.toList.all Search.Parameters.isIdentifierChar = true := by
    rw [List.all_eq_true]
    intro c member
    exact (plain.letter member).2.2.2
  rw [Search.Parameters.isIdentifierList, Text.split_eq plain.uncut]
  simp [plain.present, named]

end Console.PlainValue

theorem EventKind.solid_lower {event : String} (known : EventKind.isKnown event = true) :
    Text.Solid (Text.lower event) := by
  obtain ⟨entry, member, same⟩ := List.any_eq_true.mp known
  have solid : ∀ entry ∈ EventKind.known, Text.Solid (Text.lower entry.1) := by decide
  rw [← eq_of_beq same]
  exact solid entry member

namespace Search

/-- Given the value, the parameter asks for this text in the field. -/
structure ParameterHandler.Asks (h : ParameterHandler) (field label value text : String) :
    Prop where
  handles : h.handles label = true
  allows : h.allows .console = true
  accepts : ∀ now, h.accepts now value = true
  builds : ∀ now session, h.build now session ⟨label, value⟩ =
    .ok (.ofCondition (.equalsText (.of field) text (List.cons_ne_nil _ _)))

namespace Parameters

variable {field label value : String} (plain : Console.PlainValue value)

include plain

theorem literal_asks (name : String) {aliases : List String} (handles : answersTo aliases label) :
    (literal name aliases (.of field) (List.cons_ne_nil _ _)).Asks field label value value := by
  refine ⟨handles, rfl, fun _ => plain.identifiers, fun now session => ?_⟩
  have values : (Text.values value).map Text.lower = [value] := by
    rw [plain.solid.values_eq plain.uncut, List.map_singleton, plain.lower_eq]
  simp only [literal, Parameters.plain, values]
  rfl

theorem freeText_asks (name : String) {aliases : List String} (handles : answersTo aliases label) :
    (freeText name aliases (.of field) (List.cons_ne_nil _ _)).Asks field label value
      (Console.spaced value) := by
  refine ⟨handles, rfl, fun _ => ?_, fun now session => rfl⟩
  simp [freeText, Parameters.plain, plain.present]

end Parameters

/-- Fields with the labels by which the console searches for them. -/
def searchable : List (String × String) :=
  [("cause", "c"), ("target", "tg"), ("entity", "e"), ("block", "b"), ("message", "m")]

/-- No blank or mark of the console stands in the fields and labels, and no field is set by the
program itself. -/
theorem searchable_words : ∀ pair ∈ searchable, Free pair.1 ∧ Text.Solid pair.1 ∧
    '=' ∉ pair.1.toList ∧ Path.parse pair.1 = .of pair.1 ∧ Text.Solid pair.2 ∧
    ':' ∉ pair.2.toList ∧ pair.2.toList.head? ≠ some '-' ∧
    answersTo Parameters.timeAliases pair.2 = false := by
  decide

/-- What a search for a value compares a field with. -/
def soughtText (field value : String) : String :=
  if field = "message" then Console.spaced value else value

open Parameters in
theorem exists_asks {field label value : String} (pair : (field, label) ∈ searchable)
    (plain : Console.PlainValue value) (settings : Settings) (players : Players) :
    ∃ h ∈ Registry.builtinParameters settings players,
      h.Asks field label value (soughtText field value) := by
  simp only [searchable, List.mem_cons, Prod.mk.injEq, List.not_mem_nil, or_false] at pair
  rcases pair with ⟨rfl, rfl⟩ | ⟨rfl, rfl⟩ | ⟨rfl, rfl⟩ | ⟨rfl, rfl⟩ | ⟨rfl, rfl⟩
  · exact ⟨cause, by simp [Registry.builtinParameters], literal_asks plain "cause" (by decide)⟩
  · exact ⟨target, by simp [Registry.builtinParameters], literal_asks plain "target" (by decide)⟩
  · exact ⟨entity, by simp [Registry.builtinParameters], literal_asks plain "entity" (by decide)⟩
  · exact ⟨block, by simp [Registry.builtinParameters], literal_asks plain "block" (by decide)⟩
  · exact ⟨message, by simp [Registry.builtinParameters], freeText_asks plain "message" (by decide)⟩

theorem request_searchable (now : Instant) (zone : Zone) (players : Players)
    {field label value : String} (pair : (field, label) ∈ searchable)
    (plain : Console.PlainValue value) :
    request (.builtin .standard players) now zone .console (label ++ ":" ++ value ++ " -ng") =
      (Parameters.sinceCutoff now ⟨"t", "3d"⟩).map fun since =>
        ({ ungrouped zone with
            query := ⟨[.equalsText (.of field) (soughtText field value) (List.cons_ne_nil _ _),
              since], Query.defaultLimit⟩ },
          some "Defaults used: t:3d") := by
  obtain ⟨-, -, -, -, labelled, colon, mark, untimed⟩ := searchable_words _ pair
  obtain ⟨h, member, asks⟩ := exists_asks pair plain .standard players
  have text : (label ++ ":" ++ value).toList = label.toList ++ ':' :: value.toList := by
    simp [String.toList_append]
  have parsed : Word.parse? (label ++ ":" ++ value) = some (.parameter ⟨label, value⟩) := by
    apply Word.parse?_parameter (labelled.join plain.solid (by decide) text) text
    · rintro rfl
      exact labelled.present rfl
    · exact colon
    · exact mark
    · exact plain.present
  exact request_value rfl member asks.handles asks.allows (asks.accepts now) (asks.builds now _)
    parsed untimed (Console.Command.parse_search labelled plain.solid).2

end Search

namespace Service

/-- A service with the standard settings before anything happens. -/
def fresh : Service where
  archive := .empty 2419200 (some (.ofList []))
  queue := .empty
  compiler := .builtin .standard (.ofList [])
  searchTimeout := 30000
  zone := .utc

/-- The standard settings are good as long as there are four weeks left to keep records. -/
theorem start_standard (opened : Instant) : start opened .standard =
    if (opened.shift? 2419200).isSome then .ok fresh
    else .error (.storage (.invalidExpiry "4w")) := by
  have span : Span.parse? Config.standard.storage.expiry = some 2419200 := by decide
  have standing : (Span.parse? Config.standard.search.defaultTime).isNone = false := by decide
  have kept : Config.standard.storage.retention opened =
      if (opened.shift? 2419200).isSome then .ok 2419200 else .error (.invalidExpiry "4w") := by
    rw [Config.Storage.retention, span, Option.filter_some]
    cases (opened.shift? 2419200).isSome <;> rfl
  have archive : Config.standard.storage.archive opened (some (.ofList [])) =
      (Config.standard.storage.retention opened).map fun span =>
        .empty span (some (.ofList [])) := if_pos rfl
  have named : Config.standard.players = [] := rfl
  simp only [start, Config.validate, standing, named, archive, kept]
  cases (opened.shift? 2419200).isSome <;> rfl

/-- The console's line for a search changes nothing. -/
theorem reply_search (service : Service) (now : Instant) {label value : String}
    (labelled : Text.Solid label) (valued : Text.Solid value) :
    service.reply now ("search " ++ label ++ ":" ++ value ++ " -ng") =
      .ok (service, some (searchReply
        (service.search now .console (label ++ ":" ++ value ++ " -ng")))) := by
  rw [reply, (Console.Command.parse_search labelled valued).1]
  rfl

theorem ask_ok {service : Service} {now : Instant} {session : Session} {entries : List Entry}
    (found : service.archive.query now session = .ok entries) :
    service.ask now session = .entries entries := by
  rw [ask, found]

section Lines

variable {field : String} (free : Free field) (now : Instant) (event : String) {v : Datum}
  (primitive : v.isPrimitive = true)

/-- The service that waits to write a record of one value. -/
def queued : Service := { fresh with queue := ⟨[(oneValue free now event primitive).record]⟩ }

/-- The service that has tried to write a record of one value. -/
def flushed : Service :=
  { fresh with archive := archived free now event primitive 2419200 (some (.ofList [])) }

theorem reply_record (known : Text.Solid event) (keyed : Text.Solid field)
    (run : '=' ∉ field.toList) (path : Path.parse field = .of field) {value : String}
    (valued : Text.Solid value) :
    fresh.reply now ("record " ++ event ++ " " ++ field ++ "=" ++ value) =
      .ok (queued free now (Text.lower event) (Console.Command.isPrimitive_valueOf value),
        some ("Queued " ++ Text.lower event ++ " record (1 pending)")) := by
  have text : "Queued " ++ Text.lower event ++ " record (" ++ toString 1 ++ " pending)" =
      "Queued " ++ Text.lower event ++ " record (1 pending)" := by
    have count : " record (" ++ toString 1 ++ " pending)" = " record (1 pending)" := by decide
    rw [← count, String.append_assoc, String.append_assoc]
    rfl
  rw [reply, Console.Command.parse_record known keyed run path valued, ← text]
  rfl

variable {event}

theorem reply_flush (named : event ≠ "") (finite : v.hasNonFinite = false) :
    (queued free now event primitive).reply now "flush" =
      .ok (flushed free now event primitive,
        some (if (now.shift? 2419200).isSome then "Flushed 1 records"
          else "Flush failed: storage error: 1 of 1 records could not be written")) := by
  have outcome := write_oneValue free now primitive named finite fresh.archive
  have written : fresh.archive.write now [(oneValue free now event primitive).record] =
      ((flushed free now event primitive).archive,
        if (now.shift? 2419200).isSome then none else some ⟨1, 1⟩) := Prod.ext rfl outcome
  have flush : (queued free now event primitive).flush now =
      (flushed free now event primitive,
        if (now.shift? 2419200).isSome then .ok 1 else .error ⟨1, 1⟩) := by
    have taken : (queued free now event primitive).queue.take =
        ([(oneValue free now event primitive).record], .empty) := rfl
    have archive : (queued free now event primitive).archive = fresh.archive := rfl
    simp only [Service.flush, Queue.flush, taken, archive, written]
    cases (now.shift? 2419200).isSome <;> rfl
  have command : Console.Command.parse "flush" = .ok (some .flush) :=
    Console.Command.parse_word (by decide)
  rw [reply, command]
  simp only [bind, Except.bind, execute, flush]
  cases (now.shift? 2419200).isSome <;> rfl

/-- At any time that a clock shows, the default time of the search reaches back. -/
theorem search_flushed {ns : Int} (shown : Instant.ofClock? ns = some now) (named : event ≠ "")
    (finite : v.hasNonFinite = false) {label value : String}
    (pair : (field, label) ∈ Search.searchable) (plain : Console.PlainValue value) :
    (flushed free now event primitive).search now .console (label ++ ":" ++ value ++ " -ng") =
      .ok ⟨returned now 2419200 event field v (Search.soughtText field value),
        some "Defaults used: t:3d"⟩ := by
  obtain ⟨positive, whole⟩ := Instant.ofClock?_spec shown
  have asked := Search.request_searchable now .utc (.ofList []) pair plain
  have span : Span.parse? "3d" = some 259200 := by decide
  have cutoff : Search.Parameters.cutoff? now "3d" = now.shift? (-259200) := by
    rw [Search.Parameters.cutoff?, span]
    rfl
  have reaches : (now.shift? (-259200)).isSome := by
    apply (now.shift?_back_isSome (by decide : 0 < 259200)).mpr
    rw [Instant.ReachesBack, if_pos whole]
    omega
  obtain ⟨cutoff', shifted⟩ := Option.isSome_iff_exists.mp reaches
  obtain ⟨ordinary, seconds⟩ := Instant.shift?_spec (by decide) shifted
  have early : cutoff'.seconds < now.seconds := by omega
  have found := query_archived free now primitive (.inl whole) named finite
    (by decide : 1 < 2419200) (some (.ofList [])) early ordinary .utc
    (Search.soughtText field value) (List.cons_ne_nil _ _) (by decide : 1 ≤ Query.defaultLimit)
  rw [Search.Parameters.sinceCutoff, cutoff, shifted] at asked
  exact Search.run_entries _ _ asked (ask_ok found)

end Lines

/-- One value is recorded, flushed and searched for, all at one time: each line is carried out, and
this is what the search gives. -/
def Searches (service : Service) (now : Instant) (event field label value : String)
    (result : Except Search.Failure Search.Results) : Prop :=
  ∃ queued flushed,
    service.reply now ("record " ++ event ++ " " ++ field ++ "=" ++ value) =
      .ok (queued, some ("Queued " ++ Text.lower event ++ " record (1 pending)")) ∧
    queued.reply now "flush" =
      .ok (flushed, some (if (now.shift? 2419200).isSome then "Flushed 1 records"
        else "Flush failed: storage error: 1 of 1 records could not be written")) ∧
    flushed.search now .console (label ++ ":" ++ value ++ " -ng") = result ∧
    flushed.reply now ("search " ++ label ++ ":" ++ value ++ " -ng") =
      .ok (flushed, some (searchReply result))

theorem fresh_searches {now : Instant} {ns : Int} (shown : Instant.ofClock? ns = some now)
    {event field label value : String} (known : EventKind.isKnown event = true)
    (pair : (field, label) ∈ Search.searchable) (plain : Console.PlainValue value) :
    fresh.Searches now event field label value
      (.ok ⟨returned now 2419200 (Text.lower event) field (Console.Command.valueOf value)
        (Search.soughtText field value), some "Defaults used: t:3d"⟩) := by
  obtain ⟨free, keyed, run, path, labelled, -⟩ := Search.searchable_words _ pair
  have solid := EventKind.solid_lower known
  have named : Text.lower event ≠ "" := String.toList_eq_nil_iff.not.mp solid.present
  have finite := Console.Command.hasNonFinite_valueOf value
  have primitive := Console.Command.isPrimitive_valueOf value
  have found := search_flushed free now primitive shown named finite pair plain
  refine ⟨queued free now (Text.lower event) primitive,
    flushed free now (Text.lower event) primitive,
    reply_record free now event solid.of_lower keyed run path plain.solid,
    reply_flush free now primitive named finite, found, ?_⟩
  rw [reply_search _ now labelled plain.solid, found]

/-- What is returned of a value that the console recorded. -/
theorem returned_valueOf (now : Instant) (event field value : String) :
    returned now 2419200 event field (Console.Command.valueOf value)
        (Search.soughtText field value) =
      if Console.IsText value ∧ (field = "message" ∨ '_' ∉ value.toList) then
        ((now.shift? 2419200).map fun expires =>
          recorded now expires event field (Console.spaced value)).toList
      else [] := by
  have reads : (Console.Command.valueOf value).text? = some (Search.soughtText field value) ↔
      Console.IsText value ∧ (field = "message" ∨ '_' ∉ value.toList) := by
    have sought : Search.soughtText field value = Console.spaced value ↔
        field = "message" ∨ '_' ∉ value.toList := by
      rw [Search.soughtText, ← Console.spaced_eq_self]
      split
      next message => simp [message]
      next other => simp [other, eq_comm]
    rw [← sought, ← Console.Command.valueOf_eq_text, Datum.text?_eq_some]
  rw [returned]
  by_cases found : Console.IsText value ∧ (field = "message" ∨ '_' ∉ value.toList)
  · have text := Datum.text?_eq_some.mp (reads.mpr found)
    rw [if_pos (reads.mpr found), if_pos found, (Console.Command.valueOf_eq_text.mp text).2]
    rfl
  · rw [if_neg (reads.not.mpr found), if_neg found]

/-- What the console records as text, it finds at any time that a clock shows: exactly the record,
unless an underscore became a space and the search does not make one of it, or the record could not be
kept. Numbers and truth values are not found. -/
theorem recorded_text_found {opened now : Instant} {service : Service}
    (started : start opened .standard = .ok service) {ns : Int}
    (shown : Instant.ofClock? ns = some now) {event field label value : String}
    (known : EventKind.isKnown event = true) (pair : (field, label) ∈ Search.searchable)
    (plain : Console.PlainValue value) :
    service.Searches now event field label value
      (.ok ⟨if Console.IsText value ∧ (field = "message" ∨ '_' ∉ value.toList) then
          ((now.shift? 2419200).map fun expires =>
            recorded now expires (Text.lower event) field (Console.spaced value)).toList
        else [], some "Defaults used: t:3d"⟩) := by
  have same : service = fresh := by
    rw [start_standard] at started
    split at started
    · cases started
      rfl
    · cases started
  rw [same, ← returned_valueOf]
  exact fresh_searches shown known pair plain

/-- For this input, at a time that a clock shows, the lines are carried out, yet the search does not
give exactly one entry. -/
def Misses (service : Service) (now : Instant) (event field label value : String) : Prop :=
  (∃ ns, Instant.ofClock? ns = some now) ∧ EventKind.isKnown event = true ∧
    (field, label) ∈ Search.searchable ∧ Console.PlainValue value ∧
    ∃ result, service.Searches now event field label value result ∧
      ∀ entry notice, result ≠ .ok ⟨[entry], notice⟩

theorem fresh_misses {now : Instant} {ns : Int} (shown : Instant.ofClock? ns = some now)
    {event field label value : String} (known : EventKind.isKnown event = true)
    (pair : (field, label) ∈ Search.searchable) (plain : Console.PlainValue value)
    (missed : ¬ (Console.IsText value ∧ (field = "message" ∨ '_' ∉ value.toList)) ∨
      now.shift? 2419200 = none) :
    fresh.Misses now event field label value := by
  refine ⟨⟨ns, shown⟩, known, pair, plain, _, fresh_searches shown known pair plain, ?_⟩
  intro entry notice
  rw [returned_valueOf]
  rcases missed with other | late
  · simp [other]
  · simp [late]

section Samples

open Archive

theorem start_noon : start noon .standard = .ok fresh := by
  rw [start_standard, if_pos (by decide)]

theorem noon_shown : Instant.ofClock? 1718452800000000000 = some noon := by decide

theorem tnt_found : start noon .standard = .ok fresh ∧
    Instant.ofClock? 1718452800000000000 = some noon ∧ EventKind.isKnown "break" = true ∧
    ("cause", "c") ∈ Search.searchable ∧ Console.PlainValue "tnt" ∧ ∃ expires,
      fresh.Searches noon "break" "cause" "c" "tnt"
        (.ok ⟨[recorded noon expires "break" "cause" "tnt"], some "Defaults used: t:3d"⟩) := by
  have known : EventKind.isKnown "break" = true := by decide
  have pair : ("cause", "c") ∈ Search.searchable := by decide
  have plain : Console.PlainValue "tnt" := by decide
  have found : fresh.Searches noon "break" "cause" "c" "tnt" _ :=
    recorded_text_found start_noon noon_shown known pair plain
  refine ⟨start_noon, noon_shown, known, pair, plain, .whole 1720872000 (by decide) (by decide), ?_⟩
  have kept : noon.shift? 2419200 = some (.whole 1720872000 (by decide) (by decide)) := by decide
  have text : Console.IsText "tnt" ∧ ("cause" = "message" ∨ '_' ∉ "tnt".toList) := by decide
  have letters : Text.lower "break" = "break" := by decide
  rw [if_pos text, kept, letters, Console.spaced_eq_self.mpr (by decide)] at found
  exact found

def lastWeek : Instant := .whole 8210266271999 (by decide) (by decide)

/-- Numbers are missed, and an underscore in a field of identifiers. Nothing is kept within four weeks
of the last instant. -/
theorem console_misses : start noon .standard = .ok fresh ∧
    fresh.Misses noon "break" "cause" "c" "1" ∧
    fresh.Misses noon "spawn" "entity" "e" "cave_spider" ∧
    fresh.Misses lastWeek "break" "cause" "c" "tnt" := by
  have dig : EventKind.isKnown "break" = true := by decide
  have spawn : EventKind.isKnown "spawn" = true := by decide
  have cause : ("cause", "c") ∈ Search.searchable := by decide
  have entity : ("entity", "e") ∈ Search.searchable := by decide
  have number : ¬ Console.IsText "1" := by decide
  have underscore : ¬ ("entity" = "message" ∨ '_' ∉ "cave_spider".toList) := by decide
  have shown : Instant.ofClock? 8210266271999000000000 = some lastWeek := by decide
  have late : lastWeek.shift? 2419200 = none := by decide
  exact ⟨start_noon, fresh_misses noon_shown dig cause (by decide) (.inl fun both => number both.1),
    fresh_misses noon_shown spawn entity (by decide) (.inl fun both => underscore both.2),
    fresh_misses shown dig cause (by decide) (.inr late)⟩

end Samples
end Service
end AuditLog
