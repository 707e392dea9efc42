import AuditLog.Event
import AuditLog.Pipeline
import AuditLog.Players
import AuditLog.Store

/-! The archive of records: writing gives each record its times of creation and expiry,
and a query runs a search over what is stored and live. One bad record of a batch
does not keep the others out. -/
namespace AuditLog

structure Archive where
  store : Store
  retention : Nat
  players : Option Players

inductive Rejection where
  | noEvent
  | expiryOutOfRange (created : Instant)
  | nonFinite
deriving DecidableEq

/-- Some records of a batch were not written; the others were. -/
structure BatchFailure where
  failed : Nat
  total : Nat
deriving DecidableEq

def BatchFailure.message (f : BatchFailure) : String :=
  toString f.failed ++ " of " ++ toString f.total ++ " records could not be written"

inductive QueryError where
  | filter (e : FilterError)
  | noEvent
  | bucketDate (date : Date)
deriving DecidableEq

def QueryError.message : QueryError → String
  | .filter e => e.message
  | .noEvent => "invalid data: row has no event name"
  | .bucketDate d =>
    "invalid data: invalid bucket date " ++ toString d.year ++ "-" ++ toString d.month ++ "-" ++
      toString d.day

namespace Archive

def empty (retention : Nat) (players : Option Players) : Archive := ⟨.empty, retention, players⟩

def createdAt (now : Instant) (r : Record) : Instant := (r.instant? Field.created).getD now

/-- The stored form of a record, unless it has no event name, its expiry is out of range
or some double in it is not finite. -/
def prepare (archive : Archive) (now : Instant) (r : Record) : Except Rejection StoredRecord :=
  if ((r.text? Field.event).filter (!·.isEmpty)).isNone then .error .noEvent
  else
    let created := createdAt now r
    match created.shift? archive.retention with
    | none => .error (.expiryOutOfRange created)
    | some expires =>
      if r.hasNonFinite then .error .nonFinite
      else
        let d := Table.insert "expires" (.instant expires) <|
          Table.insert "created" (.instant created) (Document.ofRecord r)
        .ok (.ofDocument d (Int64.ofInt created.micros) (some (Int64.ofInt expires.micros)))

def accepted (archive : Archive) (now : Instant) (batch : List Record) : List StoredRecord :=
  batch.filterMap fun r => (archive.prepare now r).toOption

/-- Writes the good records of a batch, in order, and reports how many were not. -/
def write (archive : Archive) (now : Instant) (batch : List Record) :
    Archive × Option BatchFailure :=
  let good := archive.accepted now batch
  let written := { archive with store := (archive.store.insertAll good).1 }
  let failed := batch.length - good.length
  (written, if failed = 0 then none else some ⟨failed, batch.length⟩)

def purge (archive : Archive) (now : Instant) : Archive × Nat :=
  let (store, removed) := archive.store.purge now.micros
  ({ archive with store := store }, removed)

def entryOf (zone : Zone) : Row → Except QueryError Entry
  | .single d =>
    let data := Record.ofDocument d
    match Record.text? data Field.event with
    | some event => .ok (.single event data)
    | none => .error .noEvent
  | .group g =>
    match LocalDay.of? g.date zone with
    | none => .error (.bucketDate g.date)
    | some day =>
      let data := Record.set (Record.ofDocument g.common) Field.count (.int (Int64.ofNat g.count))
      match Record.text? data Field.event with
      | some event => .ok (.aggregate event data day g.count)
      | none => .error .noEvent

/-- Shows a player's name as the cause, or the identifier where no name is known. -/
def withPlayerName (players : Option Players) (entry : Entry) : Entry :=
  match Record.text? entry.data Field.player with
  | none => entry
  | some raw =>
    let name := do (← players).name? (← Uuid.parse? raw)
    entry.withData (Record.set entry.data Field.cause (.text (name.getD raw)))

def query (archive : Archive) (now : Instant) (session : Session) :
    Except QueryError (List Entry) := do
  let pipeline ← (Pipeline.ofSession session).mapError QueryError.filter
  let since := (pipeline.createdSince.map Instant.micros).getD 0
  let rows := pipeline.rows (archive.store.scanSince since now.micros)
  rows.mapM fun row => do return withPlayerName archive.players (← entryOf session.zone row)

end Archive
end AuditLog
