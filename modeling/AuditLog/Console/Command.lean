import AuditLog.Number.Notation
import AuditLog.Record

/-! Lines typed at the console. A line is a command and its arguments; blank lines are
none. -/
namespace AuditLog.Console

inductive Command where
  | search (arguments : String)
  | record (event : String) (data : Record)
  | flush
  | purge
  | help
  | quit

inductive UsageError where
  | unknownCommand (word : String)
  | missingEvent
  | badToken (token : String)
deriving DecidableEq

def UsageError.message : UsageError → String
  | .unknownCommand word => "Unknown command '" ++ word ++ "'. Type 'help' for usage."
  | .missingEvent => "Usage: record <event> [key=value ...]"
  | .badToken token => "Expected key=value, got '" ++ token ++ "'"

namespace Command

def helpText : String :=
  "commands:\n" ++
  "  search <parameters>             search records, e.g. `search a:break c:tnt -ng`\n" ++
  "  record <event> [key=value ...]  queue a record, e.g. `record break cause=tnt`\n" ++
  "  flush                           write queued records now\n" ++
  "  purge                           remove expired records\n" ++
  "  help                            show this message\n" ++
  "  quit                            flush and exit"

/-- A whole number, else a finite number, else a truth value, else text in which an
underscore stands for a space. -/
def valueOf (s : String) : Datum :=
  match Text.int64? s with
  | some i => .int i
  | none =>
    match (Double.ofText? s).filter Double.isFinite with
    | some x => .double x
    | none =>
      if s == "true" then .bool true
      else if s == "false" then .bool false
      else .text (s.map fun c => if c == '_' then ' ' else c)

/-- A path and a value on the two sides of the first equals sign, neither side empty. -/
def assignment? (token : String) : Except UsageError (Path × Datum) :=
  match Text.cutFirst '=' token with
  | some (key, value) =>
    if key.isEmpty || value.isEmpty then .error (.badToken token)
    else .ok (.parse key, valueOf value)
  | none => .error (.badToken token)

def recordOf (arguments : String) : Except UsageError Command :=
  match Text.words arguments with
  | [] => .error .missingEvent
  | event :: tokens => do
    let assignments ← tokens.mapM assignment?
    return .record (Text.lower event)
      (assignments.foldl (fun data entry => Record.set data entry.1 entry.2) [])

def ofWord (word arguments : String) : Except UsageError Command :=
  if word == "search" || word == "s" || word == "lookup" || word == "l" then
    .ok (.search arguments)
  else if word == "record" then recordOf arguments
  else if word == "flush" then .ok .flush
  else if word == "purge" then .ok .purge
  else if word == "help" || word == "?" then .ok .help
  else if word == "quit" || word == "exit" || word == "stop" then .ok .quit
  else .error (.unknownCommand word)

def parse (line : String) : Except UsageError (Option Command) :=
  match Text.trimList line.toList with
  | [] => .ok none
  | cs =>
    let (word, arguments) := (Text.cutWhere Text.isBlank cs).getD (cs, [])
    (ofWord (Text.lower (String.ofList word)) (String.ofList (Text.trimList arguments))).map some

end Command
end AuditLog.Console
