import AuditLog.Query
import AuditLog.Uuid

/-! Who searches, and what one search has asked for so far. -/
namespace AuditLog

structure Location where
  world : String
  x : Double
  y : Double
  z : Double
deriving DecidableEq

structure Player where
  name : String
  id : Uuid
  location : Location
  permissions : List String
deriving DecidableEq

/-- The console has no place in a world and may do everything. -/
inductive Requester where
  | console
  | player (p : Player)
deriving DecidableEq, Inhabited

namespace Requester

def unlimitedRadius : String := "witness.radius.unlimited"

def name : Requester → String
  | .console => "console"
  | .player p => p.name

def id? : Requester → Option Uuid
  | .console => none
  | .player p => some p.id

def location? : Requester → Option Location
  | .console => none
  | .player p => some p.location

def isConsole : Requester → Bool
  | .console => true
  | .player _ => false

def may (permission : String) : Requester → Bool
  | .console => true
  | .player p => p.permissions.contains permission

end Requester

/-- Switches of a search. `extended` and `drain` are for whoever shows or restores the
result. -/
inductive Switch where
  | extended
  | noGroup
  | noChat
  | drain
  | global
  | ignoreDefault
  | selection
deriving DecidableEq

namespace Switch

def all : List Switch :=
  [.drain, .extended, .global, .ignoreDefault, .noChat, .noGroup, .selection]

def name : Switch → String
  | .extended => "extended"
  | .noGroup => "no-group"
  | .noChat => "no-chat"
  | .drain => "drain"
  | .global => "global"
  | .ignoreDefault => "ignore-default"
  | .selection => "selection"

def ofName? (s : String) : Option Switch := all.find? (·.name == s)

end Switch

structure Session where
  requester : Requester
  query : Query
  switches : List Switch
  ignored : List String
  ignoresAll : Bool
  order : SortOrder
  zone : Zone
deriving Inhabited

namespace Session

def start (requester : Requester) (zone : Zone) : Session :=
  ⟨requester, .empty, [], [], false, .standard, zone⟩

def turnOn (session : Session) (s : Switch) : Session :=
  if s ∈ session.switches then session else { session with switches := session.switches ++ [s] }

def has (session : Session) (s : Switch) : Bool := s ∈ session.switches

theorem turnOn_eq (session : Session) (s : Switch) :
    session.turnOn s = { session with switches := (session.turnOn s).switches } := by
  unfold turnOn
  split <;> rfl

theorem has_turnOn (session : Session) (s other : Switch) :
    (session.turnOn s).has other = (session.has other || decide (other = s)) := by
  unfold turnOn has
  split
  next known =>
    by_cases same : other = s
    · subst same
      simp [known]
    · simp [same]
  next => simp

def ignore (session : Session) (name : String) : Session :=
  if name ∈ session.ignored then session else { session with ignored := session.ignored ++ [name] }

def ignoreAll (session : Session) : Session := { session with ignoresAll := true }

def ignores (session : Session) (name : String) : Bool :=
  session.ignoresAll || session.ignored.contains name

end Session
end AuditLog
