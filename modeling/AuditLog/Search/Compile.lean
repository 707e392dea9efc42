import AuditLog.Search.Registry

/-! Compiling the arguments of a search. They are taken in order, each by its handler;
then the handlers that were not addressed may stand in. Lookups are left to be
resolved, and their conditions follow all others. -/
namespace AuditLog.Search

inductive Word where
  | flag (label : String) (value : Option String)
  | parameter (argument : Argument)
  | incomplete (name : String)
deriving DecidableEq

namespace Word

def standardAlias : String := "p"

def flagOf (s : String) : Word :=
  match Text.cutFirst '=' s with
  | some (label, value) => .flag label (if value.isEmpty then none else some value)
  | none => .flag s none

def parameterOf (s : String) : Word :=
  match Text.cutFirst ':' s with
  | none => .parameter ⟨standardAlias, s⟩
  | some (label, value) =>
    if label.isEmpty then .incomplete s
    else if value.isEmpty then .incomplete label
    else .parameter ⟨label, value⟩

/-- Blank text is no word. -/
def parse? (s : String) : Option Word :=
  match (Text.trim s).toList with
  | [] => none
  | '-' :: rest => some (flagOf (String.ofList rest))
  | cs => some (parameterOf (String.ofList cs))

end Word

/-- What has been compiled so far. An argument given again under the same alias takes
the place of the earlier one in `given`. -/
structure Progress where
  session : Session
  query : Query
  pending : List Lookup
  given : List Argument

namespace Progress

def add (p : Progress) (session : Session) (c : Contribution) : Progress :=
  { p with
    session := session
    query := p.query.add c.conditions
    pending := p.pending ++ c.lookup.toList }

def replace (argument : Argument) : List Argument → List Argument
  | [] => [argument]
  | other :: rest =>
    if Text.sameLetters other.label argument.label then ⟨other.label, argument.value⟩ :: rest
    else other :: replace argument rest

def applyFlag (registry : Registry) (p : Progress) (label : String) (value : Option String) :
    Except SearchError Progress :=
  match registry.flag? label with
  | none => .error (.unknownFlag label)
  | some h =>
    if !h.allows p.session.requester then .error (.flagNotAllowed label)
    else
      match value.filter (!h.accepts ·) with
      | some refused => .error (.invalidValue label refused)
      | none => (h.apply p.session label value).map fun (session, c) => p.add session c

def applyParameter (now : Instant) (registry : Registry) (p : Progress) (argument : Argument) :
    Except SearchError Progress :=
  match registry.parameter? argument.label with
  | none => .error (.unknownParameter argument.label)
  | some h =>
    if !h.allows p.session.requester then .error (.notAllowed argument.label)
    else if !h.accepts now argument.value then
      .error (.invalidValue argument.label argument.value)
    else
      match p.given.find? (h.conflicts argument) with
      | some other =>
        .error (.conflict argument.label argument.value other.label other.value)
      | none =>
        (h.build now p.session argument).map fun c =>
          { p.add p.session c with given := replace argument p.given }

def step (now : Instant) (registry : Registry) (p : Progress) (s : String) :
    Except SearchError Progress :=
  match Word.parse? s with
  | none => .ok p
  | some (.flag label value) => p.applyFlag registry label value
  | some (.parameter argument) => p.applyParameter now registry argument
  | some (.incomplete name) => .error (.emptyValue name)

def run (now : Instant) (registry : Registry) (p : Progress) :
    List String → Progress × Option SearchError
  | [] => (p, none)
  | s :: rest =>
    match p.step now registry s with
    | .ok p => p.run now registry rest
    | .error e => (p, some e)

end Progress

structure Compiled where
  query : Query
  pending : List Lookup
  defaults : List Argument
  timeout : Nat

namespace Compiled

def notice? (c : Compiled) : Option String :=
  if c.defaults.isEmpty then none
  else
    some (String.join ("Defaults used:" :: c.defaults.map fun a => " " ++ a.label ++ ":" ++ a.value))

/-- Waits for all lookups; they end in the order in which they were asked for. -/
def resolve (c : Compiled) : Except SearchError Query :=
  (Lookup.join c.timeout (List.range c.pending.length) c.pending).map c.query.add

end Compiled

structure Compiler where
  registry : Registry
  settings : Settings

namespace Compiler

def builtin (settings : Settings) (players : Players) : Compiler :=
  ⟨.builtin settings players, settings⟩

/-- A provider is refused while selections are disabled; removal is always possible. -/
def setSelection (compiler : Compiler) (provider : Option SelectionProvider) : Compiler :=
  if provider.isSome && !compiler.settings.selectionEnabled then compiler
  else { compiler with registry := compiler.registry.setSelection provider }

/-- The session or an argument says that this parameter does not stand in. -/
def isSettled (session : Session) (given : List Argument) (h : ParameterHandler) : Bool :=
  session.ignores h.name || h.aliases.any session.ignores ||
    given.any fun argument => h.handles argument.label

def standIns (now : Instant) (session : Session) (given : List Argument) (query : Query) :
    List ParameterHandler → Except SearchError (Query × List Argument)
  | [] => .ok (query, [])
  | h :: rest =>
    if isSettled session given h then standIns now session given query rest
    else do
      match ← h.standIn now session query with
      | none => standIns now session given query rest
      | some (used, conditions) =>
        let (query, more) ← standIns now session given (query.add conditions) rest
        return (query, used :: more)

def finish (compiler : Compiler) (now : Instant) (p : Progress) : Except SearchError Compiled := do
  let (query, defaults) ←
    if compiler.settings.defaultsEnabled then
      standIns now p.session p.given p.query compiler.registry.parameters
    else .ok (p.query, [])
  return ⟨query, p.pending, defaults, compiler.settings.timeout⟩

def start (compiler : Compiler) (session : Session) : Progress :=
  ⟨session, ⟨[], compiler.settings.limit⟩, [], []⟩

/-- The session after the flags before any failure, and the compiled search. -/
def prepare (compiler : Compiler) (now : Instant) (session : Session) (words : List String) :
    Session × Except SearchError Compiled :=
  match (compiler.start session).run now compiler.registry words with
  | (p, some e) => (p.session, .error e)
  | (p, none) => (p.session, compiler.finish now p)

/-- Compiles, resolves and keeps the query in the session if both succeed. -/
def compile (compiler : Compiler) (now : Instant) (session : Session) (words : List String) :
    Session × Except SearchError Query :=
  let (session, compiled) := compiler.prepare now session words
  match compiled.bind Compiled.resolve with
  | .ok query => ({ session with query := query }, .ok query)
  | .error e => (session, .error e)

end Compiler
end AuditLog.Search
