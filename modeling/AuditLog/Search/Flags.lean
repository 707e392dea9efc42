import AuditLog.Search.Handler
import AuditLog.Field

/-! The built-in flags. Most only turn a switch of the session on; three of them also
withdraw defaults. -/
namespace AuditLog.Search

structure Region where
  world : String
  x : Double × Double
  y : Double × Double
  z : Double × Double
deriving DecidableEq

abbrev SelectionProvider := Requester → Option Region

namespace Region

def span (field : Path) (ends : Double × Double) (field_ne : field.segments ≠ []) : Condition :=
  .within field (ends.1.smaller ends.2) (ends.1.larger ends.2) field_ne

def conditions (region : Region) : List Condition :=
  [.equalsText Field.world region.world Field.world_ne, span Field.x region.x Field.x_ne,
    span Field.y region.y Field.y_ne, span Field.z region.z Field.z_ne]

end Region

namespace Flags

def anyone (_ : Requester) : Bool := true

def noValue (_ : String) : Bool := false

def plain (name : String) (aliases : List String) (change : Session → Session) : FlagHandler where
  name := name
  aliases := aliases
  allows := anyone
  accepts := noValue
  apply session _ _ := .ok (change session, .none)

def extended : FlagHandler := plain "extended" ["extended", "ex"] (·.turnOn .extended)
def noGroup : FlagHandler := plain "no-group" ["no-group", "ng"] (·.turnOn .noGroup)
def noChat : FlagHandler := plain "no-chat" ["no-chat", "nc"] (·.turnOn .noChat)
def drain : FlagHandler := plain "drain" ["drain", "d"] (·.turnOn .drain)

def global : FlagHandler :=
  plain "global" ["global", "g"] fun session => (session.turnOn .global).ignore "radius"

def order : FlagHandler where
  name := "order"
  aliases := ["order", "o"]
  allows := anyone
  accepts value := (SortOrder.parse? value).isSome
  apply session label value :=
    match value with
    | none => .error (.missingFlagValue label)
    | some value =>
      match SortOrder.parse? value with
      | some order => .ok ({ session with order := order }, .none)
      | none => .error (.invalidValue label value)

/-- Drops the named defaults, or all of them without a value. -/
def ignoreDefault : FlagHandler where
  name := "ignore-default"
  aliases := ["ignore-default", "id"]
  allows := anyone
  accepts value := !(Text.values value).isEmpty
  apply session _ value :=
    let marked := session.turnOn .ignoreDefault
    match value with
    | none => .ok (marked.ignoreAll, .none)
    | some value =>
      .ok ((Text.values value).foldl (fun s name => s.ignore (Text.lower name)) marked, .none)

def selectionName : String := "selection"

/-- Restricts the search to the selected region, in place of the default radius. -/
def selection (provider : SelectionProvider) : FlagHandler where
  name := selectionName
  aliases := ["we-sel", "sel"]
  allows requester := !requester.isConsole
  accepts := noValue
  apply session _ _ :=
    match provider session.requester with
    | none => .error .noSelection
    | some region =>
      .ok ((session.turnOn .selection).ignore "radius", ⟨region.conditions, none⟩)

end Flags
end AuditLog.Search
