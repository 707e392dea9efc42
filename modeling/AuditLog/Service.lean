import AuditLog.Config
import AuditLog.Console.Command
import AuditLog.Console.Describe
import AuditLog.Queue
import AuditLog.Search.Run

/-! The running program: an archive, the records waiting for it, and a compiler of
searches. Commands change it and are answered by text. -/
namespace AuditLog

structure Service where
  archive : Archive
  queue : Queue
  compiler : Search.Compiler
  searchTimeout : Nat
  zone : Zone

namespace Service

/-- Starts with an empty archive. The players become known in the order of their names. -/
def start (now : Instant) (config : Config) : Except ConfigError Service := do
  config.validate now
  let players := Players.ofList config.players
  let archive ← (config.storage.archive now (some players)).mapError ConfigError.storage
  return {
    archive := archive
    queue := .empty
    compiler := .builtin config.search players
    searchTimeout := config.searchTimeout
    zone := config.zone }

/-- A query that fails is answered like any failure that a requester cannot mend. -/
def ask (service : Service) (now : Instant) (session : Session) : Search.Answer :=
  match service.archive.query now session with
  | .ok entries => .entries entries
  | .error _ => .failed

def search (service : Service) (now : Instant) (requester : Requester) (arguments : String) :
    Except Search.Failure Search.Results :=
  Search.run service.compiler now service.zone service.searchTimeout (service.ask now) requester
    arguments

def submit (service : Service) (now : Instant) (event : String) (data : Record) : Service :=
  { service with queue := service.queue.submit now event data }

def flush (service : Service) (now : Instant) : Service × Except BatchFailure Nat :=
  let (queue, archive, result) := service.queue.flush (Archive.write · now) service.archive
  ({ service with queue := queue, archive := archive }, result)

def purge (service : Service) (now : Instant) : Service × Nat :=
  let (archive, removed) := service.archive.purge now
  ({ service with archive := archive }, removed)

def resultLines (results : Search.Results) : List String :=
  let rows := match results.entries with
    | [] => ["No results found."]
    | entries => entries.map Entry.describe
  results.notice.toList ++ rows

def searchReply : Except Search.Failure Search.Results → String
  | .ok results => "\n".intercalate (resultLines results)
  | .error e => e.message

def flushReply : Except BatchFailure Nat → String
  | .ok written => "Flushed " ++ toString written ++ " records"
  | .error e => "Flush failed: storage error: " ++ e.message

def execute (service : Service) (now : Instant) : Console.Command → Service × String
  | .search arguments => (service, searchReply (service.search now .console arguments))
  | .record event data =>
    let service := service.submit now event data
    (service,
      "Queued " ++ event ++ " record (" ++ toString service.queue.size ++ " pending)")
  | .flush =>
    let (service, result) := service.flush now
    (service, flushReply result)
  | .purge =>
    let (service, removed) := service.purge now
    (service, "Purged " ++ toString removed ++ " expired records")
  | .help => (service, Console.Command.helpText)
  | .quit => (service, "Shutting down")

/-- Reads a line and carries it out; a blank line has no reply. -/
def reply (service : Service) (now : Instant) (line : String) :
    Except Console.UsageError (Service × Option String) := do
  match ← Console.Command.parse line with
  | none => return (service, none)
  | some command =>
    let (service, text) := service.execute now command
    return (service, some text)

/-- Carries out lines while a flush task runs that has not ticked before they end; lines
that are no commands are passed over. -/
def runFlusher (service : Service) (now : Instant) (lines : List String) : Service :=
  let service := lines.foldl (fun service line =>
    match service.reply now line with
    | .ok (service, _) => service
    | .error _ => service) service
  let (_, queue, archive) :=
    FlushTask.started.stop.tick service.queue (Archive.write · now) service.archive
  { service with queue := queue, archive := archive }

end Service
end AuditLog
