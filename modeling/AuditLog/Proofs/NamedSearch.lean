import AuditLog.Proofs.LowerBound
import AuditLog.Proofs.RowOrder
import AuditLog.Proofs.SearchBounds
import AuditLog.Search.Run

/-! A search by the console for one value of a field, without grouping. Nothing but the default
time is added to what the word asks for, and the filter of the two keeps the documents with that
value that are young enough. -/
namespace AuditLog

namespace Search

open Parameters

/-- The parameter adds nothing when it is not addressed. -/
def ParameterHandler.Quiet (h : ParameterHandler) (now : Instant) (session : Session) : Prop :=
  ∀ query, h.standIn now session query = .ok none

namespace Compiler

variable {now : Instant} {session : Session} {given : List Argument} {query : Query}

theorem standIns_quiet {handlers : List ParameterHandler}
    (quiet : ∀ h ∈ handlers, h.Quiet now session) (rest : List ParameterHandler) :
    standIns now session given query (handlers ++ rest) =
      standIns now session given query rest := by
  induction handlers with
  | nil => rfl
  | cons h others ih =>
    have later := ih fun other member => quiet other (List.mem_cons_of_mem _ member)
    rw [List.cons_append, standIns, later, quiet h List.mem_cons_self query]
    split
    · rfl
    · rfl

/-- For the console only the time stands in. -/
theorem standIns_console (settings : Settings) (players : Players)
    (console : session.requester = .console)
    (unsettled : isSettled session given (time settings.defaultTime) = false) :
    standIns now session given query (Registry.builtinParameters settings players) =
      (sinceCutoff now ⟨"t", settings.defaultTime⟩).map fun since =>
        (query.add [since], [⟨"t", settings.defaultTime⟩]) := by
  let before := [event, player players, recipient players,
    radius settings.defaultRadius settings.radiusLimit]
  let after := [world, cause, block, item, entity, target, message, itemName, itemLore, ip, custom]
  have quiet : ∀ h ∈ before ++ after, h.Quiet now session := by
    intro h member query
    simp only [before, after, List.cons_append, List.nil_append, List.mem_cons, List.not_mem_nil,
      or_false] at member
    rcases member with rfl | rfl | rfl | rfl | rfl | rfl | rfl | rfl | rfl | rfl | rfl | rfl |
      rfl | rfl | rfl
    case inr.inr.inr.inl => simp only [radius, console, Requester.location?]
    all_goals rfl
  obtain ⟨quiet, quiet'⟩ := List.forall_mem_append.mp quiet
  have ends (query : Query) : standIns now session given query after = .ok (query, []) :=
    standIns_quiet quiet' []
  have order : Registry.builtinParameters settings players =
      before ++ time settings.defaultTime :: after := rfl
  have stand : (time settings.defaultTime).standIn now session query =
      (sinceCutoff now ⟨"t", settings.defaultTime⟩).map fun since =>
        some (⟨"t", settings.defaultTime⟩, [since]) := rfl
  rw [order, standIns_quiet quiet, standIns, unsettled, stand]
  cases sinceCutoff now ⟨"t", settings.defaultTime⟩ with
  | error e => rfl
  | ok since =>
    simp only [Bool.false_eq_true, if_false, Except.map, bind, Except.bind, ends]
    rfl

end Compiler

theorem Registry.parameter?_eq {settings : Settings} {players : Players} {h : ParameterHandler}
    (member : h ∈ builtinParameters settings players) {label : String}
    (handles : h.handles label = true) :
    (builtin settings players).parameter? label = some h := by
  cases found : (builtin settings players).parameter? label with
  | none => exact absurd handles (List.find?_eq_none.mp found h member)
  | some other =>
    obtain ⟨known, handles'⟩ := parameter?_some found
    rw [handler_unique known member handles' handles]

/-- The session of the console that asks for single records. -/
def ungrouped (zone : Zone) : Session := (Session.start .console zone).turnOn .noGroup

theorem ignores_ungrouped (zone : Zone) (name : String) :
    (ungrouped zone).ignores name = false := by
  rw [ungrouped, Session.ignores_turnOn]
  rfl

section Value

variable {settings : Settings} {players : Players} {h : ParameterHandler} {now : Instant}
  {zone : Zone} {word label value : String} {c : Condition}

/-- What two words add, of which the first is a parameter with one condition at once. -/
theorem run_value (member : h ∈ Registry.builtinParameters settings players)
    (handles : h.handles label = true) (allowed : h.allows .console = true)
    (accepted : h.accepts now value = true)
    (built : h.build now (.start .console zone) ⟨label, value⟩ = .ok (.ofCondition c))
    (parsed : Word.parse? word = some (.parameter ⟨label, value⟩)) :
    ((Compiler.builtin settings players).start (.start .console zone)).run now
        (.builtin settings players) [word, "-ng"] =
      (⟨ungrouped zone, ⟨[c], settings.limit⟩, [], [⟨label, value⟩]⟩, none) := by
  have first : ((Compiler.builtin settings players).start (.start .console zone)).step now
      (.builtin settings players) word =
      .ok ⟨.start .console zone, ⟨[c], settings.limit⟩, [], [⟨label, value⟩]⟩ := by
    simp only [Progress.step, parsed, Progress.applyParameter,
      Registry.parameter?_eq member handles, Compiler.start, allowed, accepted, Session.start]
    simp only [Session.start] at built
    simp only [built]
    rfl
  have flag : Word.parse? "-ng" = some (.flag "ng" none) := by decide
  have found : (Registry.builtin settings players).flag? "ng" = some Flags.noGroup := rfl
  have second : Progress.step now (.builtin settings players)
      ⟨.start .console zone, ⟨[c], settings.limit⟩, [], [⟨label, value⟩]⟩ "-ng" =
      .ok ⟨ungrouped zone, ⟨[c], settings.limit⟩, [], [⟨label, value⟩]⟩ := by
    simp only [Progress.step, flag, Progress.applyFlag, found]
    rfl
  simp only [Progress.run, first, second]

/-- The search asks for the condition and for the default time, which it announces. -/
theorem request_value (defaults : settings.defaultsEnabled = true)
    (member : h ∈ Registry.builtinParameters settings players) (handles : h.handles label = true)
    (allowed : h.allows .console = true) (accepted : h.accepts now value = true)
    (built : h.build now (.start .console zone) ⟨label, value⟩ = .ok (.ofCondition c))
    (parsed : Word.parse? word = some (.parameter ⟨label, value⟩))
    (untimed : answersTo timeAliases label = false) {arguments : String}
    (words : Text.words arguments = [word, "-ng"]) :
    request (.builtin settings players) now zone .console arguments =
      (sinceCutoff now ⟨"t", settings.defaultTime⟩).map fun since =>
        ({ ungrouped zone with query := ⟨[c, since], settings.limit⟩ },
          some ("Defaults used: t:" ++ settings.defaultTime)) := by
  have unsettled : Compiler.isSettled (ungrouped zone) [⟨label, value⟩]
      (time settings.defaultTime) = false := by
    have unhandled : (time settings.defaultTime).handles label = false := untimed
    simp [Compiler.isSettled, ignores_ungrouped, unhandled]
  have ran := run_value member handles allowed accepted built parsed
  have stood : Compiler.standIns now (ungrouped zone) [⟨label, value⟩] ⟨[c], settings.limit⟩
      (Registry.builtinParameters settings players) =
        (sinceCutoff now ⟨"t", settings.defaultTime⟩).map fun since =>
          (⟨[c, since], settings.limit⟩, [⟨"t", settings.defaultTime⟩]) :=
    Compiler.standIns_console settings players rfl unsettled
  have settled : (Compiler.builtin settings players).settings = settings := rfl
  have registry : (Compiler.builtin settings players).registry = .builtin settings players := rfl
  rw [request, words, Compiler.prepare, registry, ran]
  have parameters : (Registry.builtin settings players).parameters =
      Registry.builtinParameters settings players := rfl
  simp only [Compiler.finish, settled, registry, defaults, if_true, parameters]
  rw [stood]
  cases sinceCutoff now ⟨"t", settings.defaultTime⟩ with
  | error e => rfl
  | ok since =>
    let compiled : Compiled := ⟨⟨[c, since], settings.limit⟩, [], [⟨"t", settings.defaultTime⟩],
      settings.timeout⟩
    have resolved : compiled.resolve = .ok ⟨[c, since], settings.limit⟩ := rfl
    have notice : compiled.notice? = some ("Defaults used: t:" ++ settings.defaultTime) := by
      apply congrArg some
      change String.join ["Defaults used:", " " ++ "t" ++ ":" ++ settings.defaultTime] = _
      rw [← String.toList_inj]
      simp [String.join, String.toList_append]
    simp only [Except.map, bind, Except.bind, pure, Except.pure]
    rw [resolved, notice]

end Value

section Run

variable {compiler : Compiler} {now : Instant} {zone : Zone} {requester : Requester}
  {arguments : String} (timeout : Nat) (ask : Session → Answer)

theorem run_refused {e : SearchError}
    (refused : request compiler now zone requester arguments = .error e) :
    run compiler now zone timeout ask requester arguments = .error (.refused e) := by
  rw [run, refused]
  rfl

theorem run_entries {session : Session} {notice : Option String} {rows : List Entry}
    (asked : request compiler now zone requester arguments = .ok (session, notice))
    (answered : ask session = .entries rows) :
    run compiler now zone timeout ask requester arguments = .ok ⟨rows, notice⟩ := by
  rw [run, asked]
  simp only [Except.mapError, bind, Except.bind, answered]
  rfl

end Run
end Search

namespace Filter

/-- The filter of a value and a least time of creation. -/
def ofValue (name text : String) (cutoff : Instant) : Filter :=
  (everything.merge (everything.add (.of name) (.equal (.text text)))).merge
    (everything.add Field.created (.atLeast (.instant cutoff)))

theorem admits_ofValue (name text : String) (cutoff : Instant) (d : Document) :
    (ofValue name text cutoff).admits d =
      (Test.matches? (Table.find? name d) (.equal (.text text)) &&
        Test.matches? (Table.find? "created" d) (.atLeast (.instant cutoff))) := by
  have field : Document.get? d (.of name) = Table.find? name d := rfl
  have created : Document.get? d Field.created = Table.find? "created" d := rfl
  rw [ofValue, admits_merge, admits_merge, admits_add, admits_add, admits_everything, field,
    created, Bool.true_and, Bool.true_and, Bool.true_and]

theorem tests_ofValue {name : String} (other : name ≠ "created") (text : String)
    (cutoff : Instant) :
    (ofValue name text cutoff).tests Field.created = [.atLeast (.instant cutoff)] := by
  have apart : Field.created ≠ Path.of name := by
    intro same
    exact other (List.singleton_inj.mp (Path.mk.inj same)).symm
  have fields : (ofValue name text cutoff).fields =
      addTests [(.of name, [.equal (.text text)])] Field.created [.atLeast (.instant cutoff)] := rfl
  rw [tests, fields, addTests, Table.find?_insert, if_pos rfl]
  simp [Table.find?, apart]

end Filter

namespace Pipeline

/-- The pipeline of an ungrouped search for one value. -/
def ofValue (name text : String) (cutoff : Instant) (limit : Nat) : Pipeline :=
  ⟨.ofValue name text cutoff, none, .standard, limit⟩

theorem ofSession_value {name : String} (text : String) {field_ne : (Path.of name).segments ≠ []}
    (cutoff : Instant) (zone : Zone) (limit : Nat) :
    ofSession { Search.ungrouped zone with
      query := ⟨[.equalsText (.of name) text field_ne,
        .since Field.created cutoff Field.created_ne], limit⟩ } =
      .ok (ofValue name text cutoff limit) := rfl

theorem since_ofValue {name : String} (other : name ≠ "created") (text : String)
    (cutoff : Instant) (limit : Nat) :
    (ofValue name text cutoff limit).since = cutoff.micros := by
  have bound : (ofValue name text cutoff limit).createdSince = some cutoff := by
    have tests := Filter.tests_ofValue other text cutoff
    simp only [createdSince, ofValue, tests]
    rfl
  rw [since, bound]
  rfl

theorem sortRows_short (order : SortOrder) {rows : List Row} (few : rows.length ≤ 1) :
    sortRows order rows = rows := by
  cases rows with
  | nil => exact List.mergeSort_nil
  | cons row rest =>
    have alone : rest = [] :=
      List.length_eq_zero_iff.mp (Nat.le_zero.mp (Nat.succ_le_succ_iff.mp few))
    rw [alone]
    exact List.mergeSort_singleton row

/-- Of at most one document nothing has to be sorted. -/
theorem rows_ofValue (name text : String) (cutoff : Instant) {limit : Nat} (room : 1 ≤ limit)
    {ds : List Document} (few : ds.length ≤ 1) : (ofValue name text cutoff limit).rows ds =
      (ds.filter fun d => (Filter.ofValue name text cutoff).admits d).map .single := by
  have short : ((ds.filter fun d => (Filter.ofValue name text cutoff).admits d).map
      Row.single).length ≤ 1 := by
    rw [List.length_map]
    exact (List.length_filter_le _ _).trans few
  have rows : (ofValue name text cutoff limit).rows ds =
      (sortRows .standard ((ds.filter fun d => (Filter.ofValue name text cutoff).admits d).map
        Row.single)).take limit := rfl
  rw [rows, sortRows_short _ short, List.take_of_length_le (short.trans room)]

end Pipeline
end AuditLog
