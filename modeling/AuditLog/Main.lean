import AuditLog.Config.Arguments
import AuditLog.Service
import Std.Time.DateTime.Timestamp

/-! The program at a terminal: it carries out commands line by line until the input ends
or a command ends it, and writes what is still queued. Records are kept in memory. -/
namespace AuditLog.Main

def usage : String :=
  "usage: [-c FILE] [-d DIRECTORY] [--record-expiry TIME] [--query-timeout SECONDS] " ++
    "[--no-defaults]"

def now : IO Instant := do
  let time ← Std.Time.Timestamp.now
  match Instant.ofClock? time.toNanosecondsSinceUnixEpoch.toInt with
  | some t => return t
  | none => throw (IO.userError "the clock shows a time before 1970")

def fileText (options : List CommandOption) : IO (Option String) := do
  match CommandOption.file? options with
  | none => return none
  | some path =>
    try
      return some (← IO.FS.readFile path)
    catch _ => return none

/-- Writes what is queued when the last flush, at `flushed` milliseconds, is an interval
ago. -/
def flushWhenDue (interval flushed : Nat) (service : Service) : IO (Nat × Service) := do
  let present ← IO.monoMsNow
  if present < flushed + interval then return (flushed, service)
  else return (present, (service.flush (← now)).1)

/-- Carries out one line. The result is none when the line ends the program. -/
def step (service : Service) (line : String) : IO (Option Service) := do
  match Console.Command.parse line with
  | .error e =>
    IO.println e.message
    return some service
  | .ok none => return some service
  | .ok (some .quit) => return none
  | .ok (some command) =>
    let (service, text) := service.execute (← now) command
    IO.println text
    return some service

partial def loop (input : IO.FS.Stream) (interval flushed : Nat) (service : Service) :
    IO Service := do
  let line ← input.getLine
  let (flushed, service) ← flushWhenDue interval flushed service
  if line.isEmpty then return service
  match ← step service line with
  | some service => loop input interval flushed service
  | none => return service

def run (config : Config) : IO UInt32 := do
  match Service.start (← now) config with
  | .error e =>
    IO.eprintln e.message
    return 1
  | .ok service =>
    let purged := (service.purge (← now)).1
    let ended ← loop (← IO.getStdin) config.flushInterval (← IO.monoMsNow) purged
    match (ended.flush (← now)).2 with
    | .ok _ => return 0
    | .error e =>
      IO.eprintln e.message
      return 1

end AuditLog.Main

def main (arguments : List String) : IO UInt32 := do
  match AuditLog.CommandOption.all? arguments with
  | none =>
    IO.eprintln AuditLog.Main.usage
    return 2
  | some options =>
    let text ← AuditLog.Main.fileText options
    match AuditLog.Config.ofOptions (← AuditLog.Main.now) (fun _ => text) options with
    | .error e =>
      IO.eprintln e.message
      return 1
    | .ok config => AuditLog.Main.run config
