import AuditLog.Proofs.AggregateCounts
import AuditLog.Proofs.LookupJoin
import AuditLog.Proofs.PlayerNames
import AuditLog.Proofs.TextPieces
import AuditLog.Proofs.UuidText

/-! A search by a player's name returns that player's records under that name. The name is turned
into an identifier when the search is compiled, and the identifier into a name when a row is shown.
What a word asks for is followed from the step that takes it to the query that is run. -/
namespace AuditLog

namespace Search

namespace Progress

/-- A step only adds conditions and look-ups. -/
theorem step_grows {now : Instant} {registry : Registry} {p q : Progress} {word : String}
    (taken : p.step now registry word = .ok q) :
    p.query.conditions ⊆ q.query.conditions ∧ p.pending ⊆ q.pending := by
  rcases step_cases taken with ⟨-, rfl⟩ | ⟨label, value, h, session, c, -, -, -, rfl⟩ |
    ⟨argument, h, c, -, -, -, -, rfl⟩
  · exact ⟨List.Subset.refl _, List.Subset.refl _⟩
  · exact ⟨List.subset_append_left _ _, List.subset_append_left _ _⟩
  · exact ⟨List.subset_append_left _ _, List.subset_append_left _ _⟩

theorem run_grows {now : Instant} {registry : Registry} {p q : Progress} {words : List String}
    (taken : p.run now registry words = (q, none)) :
    p.query.conditions ⊆ q.query.conditions ∧ p.pending ⊆ q.pending := by
  induction words generalizing p with
  | nil =>
    cases taken
    exact ⟨List.Subset.refl _, List.Subset.refl _⟩
  | cons word rest ih =>
    unfold run at taken
    split at taken
    next r stepped =>
      obtain ⟨conditions, pending⟩ := step_grows stepped
      obtain ⟨conditions', pending'⟩ := ih taken
      exact ⟨List.Subset.trans conditions conditions', List.Subset.trans pending pending'⟩
    next => cases taken

/-- What the step of a word adds is there when all words have been taken. -/
theorem run_takes {now : Instant} {registry : Registry} {p q : Progress} {words : List String}
    (taken : p.run now registry words = (q, none)) {word : String} (member : word ∈ words) :
    ∃ before after : Progress, before.step now registry word = .ok after ∧
      after.query.conditions ⊆ q.query.conditions ∧ after.pending ⊆ q.pending := by
  induction words generalizing p with
  | nil => cases member
  | cons first rest ih =>
    unfold run at taken
    split at taken
    next r stepped =>
      rcases List.mem_cons.mp member with rfl | later
      · exact ⟨p, r, stepped, run_grows taken⟩
      · exact ih taken later
    next => cases taken

end Progress

namespace Compiler

theorem finish_ok {compiler : Compiler} {now : Instant} {p : Progress} {compiled : Compiled}
    (finished : compiler.finish now p = .ok compiled) :
    p.query.conditions ⊆ compiled.query.conditions ∧ compiled.pending = p.pending := by
  rw [finish_eq] at finished
  obtain ⟨made, -, rfl⟩ := ok_of_map finished
  exact ⟨List.subset_append_left _ _, rfl⟩

/-- The query of a compiled search has what its words asked for at once and what its look-ups
found. -/
theorem compile_ok {compiler : Compiler} {now : Instant} {first session : Session}
    {words : List String} {query : Query}
    (compiled : compiler.compile now first words = (session, .ok query)) :
    session.query = query ∧ ∃ p, (compiler.start first).run now compiler.registry words = (p, none) ∧
      p.query.conditions ⊆ query.conditions ∧
      ∀ lookup ∈ p.pending, ∃ found, lookup = .found found ∧ found ⊆ query.conditions := by
  unfold compile prepare at compiled
  cases ran : (compiler.start first).run now compiler.registry words with
  | mk p failure =>
    rw [ran] at compiled
    cases failure with
    | some e => cases compiled
    | none =>
      simp only at compiled
      cases finished : compiler.finish now p with
      | error e =>
        rw [finished] at compiled
        cases compiled
      | ok search =>
        obtain ⟨kept, pending⟩ := finish_ok finished
        rw [finished] at compiled
        simp only [Except.bind, Compiled.resolve_eq] at compiled
        cases resolved : search.resolveAs (List.range search.pending.length) with
        | error e =>
          rw [resolved] at compiled
          cases compiled
        | ok result =>
          rw [resolved] at compiled
          cases compiled
          obtain ⟨each, waited, rfl⟩ := Compiled.resolveAs_ok_iff.mp resolved
          refine ⟨rfl, p, rfl, List.Subset.trans kept (List.subset_append_left _ _), ?_⟩
          intro lookup member
          rw [← pending, waited] at member
          obtain ⟨found, within, rfl⟩ := List.mem_map.mp member
          exact ⟨found, rfl, List.Subset.trans (List.sublist_flatten_of_mem within).subset
            (List.subset_append_right _ _)⟩

end Compiler

namespace Parameters

theorem nameChar_range {c : Char} (plain : (c.isAlphanum || c == '_') = true) :
    48 ≤ c.toNat ∧ c.toNat ≤ 57 ∨ 65 ≤ c.toNat ∧ c.toNat ≤ 90 ∨
      c.toNat = 95 ∨ 97 ≤ c.toNat ∧ c.toNat ≤ 122 := by
  rcases Bool.or_eq_true_iff.mp plain with alphanum | mark
  · have kinds : (c.isUpper || c.isLower || c.isDigit) = true := alphanum
    rw [Bool.or_eq_true, Bool.or_eq_true] at kinds
    rcases kinds with (upper | lower) | digit
    · have bounds : c.val ≥ 'A'.val ∧ c.val ≤ 'Z'.val := of_decide_eq_true upper
      exact .inr (.inl bounds)
    · have bounds : (decide (c.val ≥ 'a'.val) && decide (c.val ≤ 'z'.val)) = true := lower
      rw [Bool.and_eq_true, decide_eq_true_eq, decide_eq_true_eq] at bounds
      exact .inr (.inr (.inr bounds))
    · exact .inl (Char.isDigit_iff_toNat.mp digit)
  · cases beq_iff_eq.mp mark
    exact .inr (.inr (.inl rfl))

/-- A letter, digit or underscore is neither a blank nor one of the marks of a search. -/
theorem nameChar_plain {c : Char} (plain : (c.isAlphanum || c == '_') = true) :
    Text.isBlank c = false ∧ c ≠ ',' ∧ c ≠ ':' ∧ c ≠ '-' := by
  have range := nameChar_range plain
  refine ⟨Text.isBlank_printable (by omega) (by omega), ?_, ?_, ?_⟩
  all_goals
    rintro rfl
    revert range
    decide

section Names

variable {name : String} (isName : isPlayerName name = true)

include isName

theorem nameChars : ∀ c ∈ name.toList, (c.isAlphanum || c == '_') = true := by
  simp only [isPlayerName, Bool.and_eq_true, List.all_eq_true] at isName
  exact isName.2

theorem solid_name : Text.Solid name where
  unblank := fun c member => (nameChar_plain (nameChars isName c member)).1
  present := by
    simp only [isPlayerName, Bool.and_eq_true, decide_eq_true_eq] at isName
    intro empty
    rw [String.toList_eq_nil_iff.mp empty] at isName
    exact absurd isName.1.1 (by decide)

theorem values_name : Text.values name = [name] := by
  apply (solid_name isName).values_eq
  intro comma
  exact (nameChar_plain (nameChars isName _ comma)).2.1 rfl

/-- The alias may be left out. -/
theorem parse?_name {word : String} (asks : word = "p:" ++ name ∨ word = name) :
    Word.parse? word = some (.parameter ⟨"p", name⟩) := by
  have solid := solid_name isName
  rcases asks with rfl | rfl
  · have text : ("p:" ++ name).toList = "p".toList ++ ':' :: name.toList := String.toList_append
    have letter : Text.Solid "p" := by decide
    apply Word.parse?_parameter (letter.join solid (by decide) text) text (by decide) (by decide)
      (by decide)
    rintro rfl
    exact solid.present rfl
  · apply Word.parse?_bare solid
    · intro colon
      exact (nameChar_plain (nameChars isName _ colon)).2.2.1 rfl
    · intro mark
      exact (nameChar_plain (nameChars isName _ (List.mem_of_mem_head? mark))).2.2.2 rfl

end Names

theorem playerLookup_found {players : Players} {field : Path} {field_ne : field.segments ≠ []}
    {name : String} (alone : Text.values name = [name]) {conditions : List Condition}
    (found : playerLookup players field field_ne name = .found conditions) :
    ∃ id, players.id? name = some id ∧ conditions = [.equalsText field id.text field_ne] := by
  unfold playerLookup identifiers at found
  rw [alone, List.mapM_cons, List.mapM_nil] at found
  cases known : players.id? name with
  | none =>
    rw [known] at found
    cases found
  | some id =>
    rw [known] at found
    cases found
    exact ⟨id, rfl, rfl⟩

end Parameters

theorem Registry.player_mem (settings : Settings) (players : Players) :
    Parameters.player players ∈ builtinParameters settings players := by
  simp [builtinParameters]

/-- A compiled search for a name asks for the identifier that the name leads to. -/
theorem compile_name {settings : Settings} {players : Players} {compiler : Compiler}
    (standard : compiler.Standard settings players) {now : Instant} {first session : Session}
    {words : List String} {query : Query}
    (compiled : compiler.compile now first words = (session, .ok query)) {name word : String}
    (isName : Parameters.isPlayerName name = true) (within : word ∈ words)
    (asks : word = "p:" ++ name ∨ word = name) :
    ∃ id, players.id? name = some id ∧
      Condition.equalsText Field.player id.text ∈ session.query.conditions := by
  obtain ⟨same, p, taken, -, resolved⟩ := Compiler.compile_ok compiled
  obtain ⟨before, after, stepped, -, pending⟩ := Progress.run_takes taken within
  have parsed := Parameters.parse?_name isName asks
  rcases Progress.step_cases stepped with ⟨blank, -⟩ | ⟨label, value, h, _, c, flag, -⟩ |
    ⟨argument, h, c, asked, found, -, built, rfl⟩
  · rw [parsed] at blank
    cases blank
  · rw [parsed] at flag
    cases flag
  · rw [parsed] at asked
    cases asked
    obtain ⟨member, handles⟩ := Registry.parameter?_some found
    rw [standard.parameters] at member
    have answers : answersTo ["p", "player"] "p" = true := by decide
    rw [Registry.handler_unique member (Registry.player_mem settings players) handles
      answers] at built
    cases built
    have left := pending (List.mem_append_right _ (List.mem_singleton_self _))
    obtain ⟨conditions, found, kept⟩ := resolved _ left
    obtain ⟨id, known, rfl⟩ := Parameters.playerLookup_found (Parameters.values_name isName) found
    refine ⟨id, known, ?_⟩
    rw [same]
    exact kept (List.mem_singleton_self _)

end Search

theorem related_left {α β : Type} {r : α → β → Prop} {xs : List α} {ys : List β}
    (related : List.Forall₂ r xs ys) {y : β} (member : y ∈ ys) : ∃ x ∈ xs, r x y := by
  induction related with
  | nil => cases member
  | cons here _ ih =>
    rcases List.mem_cons.mp member with rfl | later
    · exact ⟨_, List.mem_cons_self, here⟩
    · obtain ⟨x, within, holds⟩ := ih later
      exact ⟨x, List.mem_cons_of_mem _ within, holds⟩

theorem Store.ordered_scanSince {store : Store} {since now : Int} {d : Document}
    (member : d ∈ store.scanSince since now) : Table.Ordered d := by
  obtain ⟨entry, -, alive⟩ := List.mem_filterMap.mp member
  unfold Store.live? at alive
  split at alive
  next => cases alive
  next =>
    simp only [StoredRecord.document?, Document.ofStored?, bind, Option.bind_eq_some_iff] at alive
    obtain ⟨tree, -, read⟩ := alive
    cases tree with
    | object members =>
      obtain ⟨fields, -, made⟩ := Option.bind_eq_some_iff.mp read
      cases made
      exact Table.ordered_ofPairs fields
    | _ => cases read

namespace Pipeline

/-- What the filter of a session admits has all its conditions. -/
theorem holds_of_admits {session : Session} {p : Pipeline} (made : ofSession session = .ok p)
    {d : Document} (admits : p.filter.admits d = true) :
    ∀ c ∈ session.query.conditions, c.Holds d := by
  obtain ⟨asked, translated, rfl⟩ := eq_pipeline made
  have passes : asked.admits d = true := by
    simp only [Session.pipeline] at admits
    split at admits
    · rw [Filter.admits_merge, Bool.and_eq_true] at admits
      exact admits.1
    · exact admits
  rw [Filter.conjunction_holds d _ _ _ translated, Condition.allHold_iff] at passes
  exact passes.2

end Pipeline

/-- Equality with a text holds of no other text. -/
theorem Condition.eq_of_holds {d : Document} {name text other : String}
    {field_ne : (Path.of name).segments ≠ []}
    (holds : (Condition.equalsText (.of name) text field_ne).Holds d)
    (found : Document.text? d name = some other) : other = text := by
  obtain ⟨v, present, same⟩ := Option.bind_eq_some_iff.mp found
  cases v with
  | text own =>
    cases same
    obtain ⟨v, w, value, operand, shows⟩ := holds
    cases operand
    cases value.symm.trans present
    rcases shows with equal | ⟨items, array, -⟩
    · exact beq_iff_eq.mp equal
    · cases array
  | _ => cases same

theorem Record.text?_ofDocument {d : Document} (ordered : Table.Ordered d) (name : String) :
    Record.text? (ofDocument d) (.of name) = Document.text? d name := by
  change (Table.find? name (ofDocument d)).bind Datum.text? = (Table.find? name d).bind Value.text?
  rw [find?_ofDocument ordered]
  cases Table.find? name d with
  | none => rfl
  | some v => cases v <;> rfl

namespace Archive

theorem data_single {zone : Zone} {d : Document} {plain : Entry}
    (made : entryOf zone (.single d) = .ok plain) : plain.data = Record.ofDocument d := by
  simp only [entryOf] at made
  split at made
  · cases made
    rfl
  · cases made

theorem data_group {zone : Zone} {g : Group} {plain : Entry}
    (made : entryOf zone (.group g) = .ok plain) : plain.data =
      Record.set (Record.ofDocument g.common) Field.count (.int (Int64.ofNat g.count)) := by
  simp only [entryOf] at made
  split at made
  · cases made
  · split at made
    · cases made
      rfl
    · cases made

/-- The texts of an entry are those of a document that passed the filter. -/
theorem text?_entryOf {p : Pipeline} {ds : List Document} (ordered : ∀ d ∈ ds, Table.Ordered d)
    {row : Row} (member : row ∈ p.rows ds) {zone : Zone} {plain : Entry}
    (made : entryOf zone row = .ok plain) {name raw : String} (common : name ∈ Group.commonFields)
    (text : Record.text? plain.data (.of name) = some raw) :
    ∃ d ∈ ds, p.filter.admits d = true ∧ Document.text? d name = some raw := by
  cases grouping : p.grouping with
  | none =>
    obtain ⟨d, scanned, admits, rfl⟩ := Pipeline.mem_rows_single grouping member
    refine ⟨d, scanned, admits, ?_⟩
    rw [← Record.text?_ofDocument (ordered d scanned), ← data_single made]
    exact text
  | some day =>
    obtain ⟨g, made', rfl⟩ := Pipeline.mem_rows_group grouping member
    obtain ⟨d, matching, same, -⟩ := Group.ofDocuments_begins day _ g made'
    obtain ⟨scanned, admits⟩ := List.mem_filter.mp matching
    refine ⟨d, scanned, admits, ?_⟩
    have other : name ≠ "count" := by
      rintro rfl
      exact absurd common (by decide)
    have shared : Record.text? (Record.ofDocument g.common) (.of name) = some raw := by
      rw [← text, data_group made]
      exact congrArg (Option.bind · Datum.text?)
        ((Table.find?_insert ..).trans (if_neg other)).symm
    have sorted : Table.Ordered (Group.commonOf d) := Table.ordered_ofPairs _
    rw [same, Record.text?_ofDocument sorted] at shared
    obtain ⟨v, found, read⟩ := Option.bind_eq_some_iff.mp shared
    rw [Group.find?_commonOf d common] at found
    cases found
    cases present : Table.find? name d with
    | none =>
      rw [Group.valueOf, present] at read
      cases read
    | some v =>
      rw [Group.valueOf, present] at read
      rw [Document.text?, present]
      exact read

/-- The entry is the plain one of its row, but for the cause. -/
structure Shows (plain entry : Entry) : Prop where
  shape : entry = plain.withData entry.data
  fields : ∀ name, name ≠ "cause" → Table.find? name entry.data = Table.find? name plain.data

theorem shows_withPlayerName (players : Option Players) (plain : Entry) :
    Shows plain (withPlayerName players plain) := by
  unfold withPlayerName
  split
  next => cases plain <;> exact ⟨rfl, fun _ _ => rfl⟩
  next raw _ =>
    refine ⟨by cases plain <;> rfl, ?_⟩
    intro name other
    rw [Entry.data_withData]
    exact (Table.find?_insert ..).trans (if_neg other)

theorem cause_withPlayerName {players : Players} {plain : Entry} {id : Uuid} {own : String}
    (text : Record.text? plain.data Field.player = some id.text)
    (known : players.name? id = some own) :
    Record.text? (withPlayerName (some players) plain).data Field.cause = some own := by
  rw [withPlayerName, text]
  simp only [Entry.data_withData, id.parse?_text, bind, Option.bind, known, Option.getD_some]
  change (Table.find? "cause" (Table.insert "cause" (.text own) plain.data)).bind Datum.text? =
    some own
  rw [Table.find?_insert, if_pos rfl]
  rfl

theorem player_withPlayerName (players : Option Players) (plain : Entry) :
    Record.text? (withPlayerName players plain).data Field.player =
      Record.text? plain.data Field.player :=
  congrArg (Option.bind · Datum.text?)
    ((shows_withPlayerName players plain).fields "player" (by decide))

/-- Each entry shows its row: a plain entry, with a player's name as the cause. -/
theorem shown_rows {archive : Archive} {now : Instant} {session : Session} {entries : List Entry}
    (result : archive.query now session = .ok entries) :
    ∃ p, Pipeline.ofSession session = .ok p ∧
      List.Forall₂ (fun row entry => ∃ plain, entryOf session.zone row = .ok plain ∧
        entry = withPlayerName archive.players plain) (archive.found now p) entries := by
  obtain ⟨p, made⟩ := ofSession_of_query result
  rw [query_eq archive now made] at result
  refine ⟨p, made, (forall₂_of_mapM result).imp ?_⟩
  intro row entry shown
  unfold Archive.shown at shown
  cases converted : entryOf session.zone row with
  | error e =>
    rw [converted] at shown
    cases shown
  | ok plain =>
    rw [converted] at shown
    cases shown
    exact ⟨plain, rfl, rfl⟩

/-- A search by a player's name shows every record that it finds under that name, in any letter
case: where an entry has a player, its cause is the name. Nothing else of the entry is changed. -/
theorem player_search_shows_name (directory : List (String × Uuid)) (settings : Search.Settings)
    (providers : List (Option Search.SelectionProvider)) (store : Store) (retention : Nat)
    (now later : Instant) (first session : Session) (words : List String) (query : Query)
    (entries : List Entry) (name word : String)
    (isName : Search.Parameters.isPlayerName name = true) (within : word ∈ words)
    (asks : word = "p:" ++ name ∨ word = name)
    (compiled : (providers.foldl Search.Compiler.setSelection
      (.builtin settings (.ofList directory))).compile now first words = (session, .ok query))
    (result : (⟨store, retention, some (.ofList directory)⟩ : Archive).query later session =
      .ok entries) :
    (∀ entry ∈ entries, ∀ raw, Record.text? entry.data Field.player = some raw →
      ∃ cause, Record.text? entry.data Field.cause = some cause ∧
        Text.lower cause = Text.lower name) ∧
    ∃ p, Pipeline.ofSession session = .ok p ∧
      List.Forall₂ (fun row entry => ∃ plain, entryOf session.zone row = .ok plain ∧
        Shows plain entry) ((⟨store, retention, some (.ofList directory)⟩ : Archive).found later p)
        entries := by
  let archive : Archive := ⟨store, retention, some (.ofList directory)⟩
  obtain ⟨p, made, rows⟩ := archive.shown_rows result
  have standard := Search.Compiler.standard_builtin settings (.ofList directory) providers
  obtain ⟨id, known, asked⟩ := Search.compile_name standard compiled isName within asks
  obtain ⟨own, shown, same⟩ :=
    (Players.shown_iff name id directory).mp ((Players.id?_ofList name id directory).mp known).shown
  constructor
  · intro entry member raw player
    obtain ⟨row, found, plain, converted, rfl⟩ := related_left rows member
    rw [player_withPlayerName] at player
    have ordered : ∀ d ∈ store.scanSince p.since later.micros, Table.Ordered d :=
      fun d scanned => Store.ordered_scanSince scanned
    obtain ⟨d, -, admits, text⟩ := text?_entryOf ordered found converted (by decide) player
    have holds := Pipeline.holds_of_admits made admits _ asked
    cases Condition.eq_of_holds holds text
    exact ⟨own, cause_withPlayerName player shown, same⟩
  · refine ⟨p, made, rows.imp ?_⟩
    rintro row entry ⟨plain, converted, rfl⟩
    exact ⟨plain, converted, shows_withPlayerName _ plain⟩

section Sample

def alice : Uuid := ⟨7⟩

def brokenByAlice : OrderedRecord :=
  ⟨[("event", .text "break"), ("player", .text alice.text)], by decide, ⟨trivial, trivial, trivial⟩⟩

def aliceCompiler : Search.Compiler :=
  [none].foldl Search.Compiler.setSelection (.builtin .standard (.ofList [("Alice", alice)]))

def aliceArchive : Archive :=
  ⟨(run 3600 none [.write noon [brokenByAlice]]).store, 3600, some (.ofList [("Alice", alice)])⟩

def aliceSearch : Session × Except Search.SearchError Query :=
  aliceCompiler.compile noon (.start .console .utc) ["p:alice", "a:break"]

def onlyEntry? : Except QueryError (List Entry) → Option Entry
  | .ok [entry] => some entry
  | _ => none

theorem onlyEntry?_some {result : Except QueryError (List Entry)} {entry : Entry}
    (found : onlyEntry? result = some entry) : result = .ok [entry] := by
  unfold onlyEntry? at found
  split at found
  · cases found
    rfl
  · cases found

theorem ok_of_toOption {ε α : Type} {result : Except ε α} {value : α}
    (found : result.toOption = some value) : result = .ok value := by
  cases result with
  | error e => cases found
  | ok v =>
    cases found
    rfl

theorem alice_shown :
    Search.Parameters.isPlayerName "alice" = true ∧ "p:alice" ∈ ["p:alice", "a:break"] ∧
    ∃ session query entry, aliceSearch = (session, .ok query) ∧
      aliceArchive.query noon session = .ok [entry] ∧
      ∃ cause, Record.text? entry.data Field.cause = some cause ∧
        Text.lower cause = Text.lower "alice" := by
  have known : ((aliceSearch.2.toOption.bind fun _ =>
      onlyEntry? (aliceArchive.query noon aliceSearch.1)).bind fun entry =>
        Record.text? entry.data Field.player).isSome = true := by decide +kernel
  obtain ⟨raw, held⟩ := Option.isSome_iff_exists.mp known
  obtain ⟨entry, found, player⟩ := Option.bind_eq_some_iff.mp held
  obtain ⟨query, compiled, only⟩ := Option.bind_eq_some_iff.mp found
  have asked : aliceSearch = (aliceSearch.1, .ok query) :=
    Prod.ext rfl (ok_of_toOption compiled)
  have isName : Search.Parameters.isPlayerName "alice" = true := by decide
  have within : "p:alice" ∈ ["p:alice", "a:break"] := by decide
  have result := onlyEntry?_some only
  obtain ⟨shown, -⟩ := player_search_shows_name [("Alice", alice)] .standard [none] _ 3600 noon
    noon _ _ _ query [entry] "alice" "p:alice" isName within (.inl rfl) asked result
  exact ⟨isName, within, _, query, entry, asked, result,
    shown entry (List.mem_singleton_self _) raw player⟩

end Sample

end Archive
end AuditLog
