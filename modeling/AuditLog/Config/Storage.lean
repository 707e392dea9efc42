import AuditLog.Archive
import AuditLog.Time.Span

/-! Settings of the archive. The name of the handler and the time that records are kept
are text, which is judged when the archive is opened. -/
namespace AuditLog.Config

/-- Where records go and how long they stay. The capacity of the cache is in bytes, the
interval of synchronization in milliseconds. -/
structure Storage where
  handler : String
  path : String
  collection : String
  cacheCapacity : Nat
  syncInterval : Nat
  compression : Bool
  temporary : Bool
  expiry : String
deriving DecidableEq, Inhabited

inductive StorageError where
  | unknownHandler (name : String)
  | invalidExpiry (text : String)
deriving DecidableEq

def StorageError.message : StorageError → String
  | .unknownHandler name => "invalid configuration: unknown record handler '" ++ name ++ "'"
  | .invalidExpiry text => "invalid configuration: invalid record expiry '" ++ text ++ "'"

namespace Storage

def knownHandler : String := "sled"

def standard : Storage :=
  ⟨knownHandler, "./witness_data", "records", 256 * 1024 * 1024, 1000, true, false, "4w"⟩

/-- The seconds that a record is kept. A time that cannot be added to the present is
refused. -/
def retention (now : Instant) (s : Storage) : Except StorageError Nat :=
  match (Span.parse? s.expiry).filter fun (span : Nat) => (now.shift? span).isSome with
  | some span => .ok span
  | none => .error (.invalidExpiry s.expiry)

/-- An empty archive. The handler is judged before the expiry. -/
def archive (now : Instant) (players : Option Players) (s : Storage) :
    Except StorageError Archive :=
  if s.handler = knownHandler then (s.retention now).map fun span => .empty span players
  else .error (.unknownHandler s.handler)

end Storage
end AuditLog.Config
