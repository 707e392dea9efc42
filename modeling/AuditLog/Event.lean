import AuditLog.Record

/-! Events and what a search returns about them: single records, or counts of equal
records of one day. Event names are compared without regard to letter case. -/
namespace AuditLog

inductive EventKind where
  | block
  | entity
  | container
  | chat
  | generic
deriving DecidableEq

namespace EventKind

def name : EventKind → String
  | .block => "Block"
  | .entity => "Entity"
  | .container => "Container"
  | .chat => "Chat"
  | .generic => "Generic"

def known : List (String × EventKind) :=
  [("break", .block), ("place", .block), ("grow", .block), ("form", .block), ("decay", .block),
    ("ignite", .block), ("death", .entity), ("spawn", .entity), ("withdraw", .container),
    ("deposit", .container), ("say", .chat), ("command", .chat)]

def ofEvent (event : String) : EventKind :=
  ((known.find? fun entry => Text.sameLetters entry.1 event).map Prod.snd).getD .generic

def isKnown (event : String) : Bool := known.any fun entry => Text.sameLetters entry.1 event

end EventKind

inductive Entry where
  | single (event : String) (data : Record)
  | aggregate (event : String) (data : Record) (day : LocalDay) (count : Nat)

namespace Entry

def event : Entry → String
  | .single event _ => event
  | .aggregate event _ _ _ => event

def data : Entry → Record
  | .single _ data => data
  | .aggregate _ data _ _ => data

def withData (data : Record) : Entry → Entry
  | .single event _ => .single event data
  | .aggregate event _ day count => .aggregate event data day count

@[simp] theorem data_withData (data : Record) (entry : Entry) : (entry.withData data).data = data := by
  cases entry <;> rfl

def kind (entry : Entry) : EventKind := .ofEvent entry.event

end Entry
end AuditLog
