import AuditLog.Search.Flags
import AuditLog.Search.Parameters

/-! The handlers that a search is compiled with, in the order of their registration. No
two parameters answer to one label. -/
namespace AuditLog.Search

/-- What governs the compilation of searches. Times are in milliseconds. -/
structure Settings where
  defaultsEnabled : Bool
  defaultRadius : Nat
  radiusLimit : Nat
  defaultTime : String
  limit : Nat
  timeout : Nat
  selectionEnabled : Bool
deriving DecidableEq, Inhabited

def Settings.standard : Settings := ⟨true, 5, 100, "3d", Query.defaultLimit, 10000, true⟩

/-- An alias of `handler` belongs to `existing` already. -/
structure AliasConflict where
  label : String
  handler : String
  existing : String
deriving DecidableEq

def AliasConflict.message (e : AliasConflict) : String :=
  "alias " ++ SearchError.quote e.label ++ " of handler " ++ SearchError.quote e.handler ++
    " is already registered by " ++ SearchError.quote e.existing

structure Registry where
  parameters : List ParameterHandler
  flags : List FlagHandler
deriving Inhabited

namespace Registry

def empty : Registry := ⟨[], []⟩

def builtinParameters (settings : Settings) (players : Players) : List ParameterHandler :=
  open Parameters in
  [event, player players, recipient players, radius settings.defaultRadius settings.radiusLimit,
    time settings.defaultTime, world, cause, block, item, entity, target, message, itemName,
    itemLore, ip, custom]

/-- The flags that withdraw defaults are offered only where there are defaults. -/
def builtinFlags (settings : Settings) : List FlagHandler :=
  open Flags in
  [extended, noGroup, noChat, drain, order] ++
    if settings.defaultsEnabled then [ignoreDefault, global] else []

def builtin (settings : Settings) (players : Players) : Registry :=
  ⟨builtinParameters settings players, builtinFlags settings⟩

def parameter? (registry : Registry) (label : String) : Option ParameterHandler :=
  registry.parameters.find? (·.handles label)

def flag? (registry : Registry) (label : String) : Option FlagHandler :=
  registry.flags.find? (·.handles label)

def conflict? (registry : Registry) (h : ParameterHandler) : Option AliasConflict :=
  h.aliases.findSome? fun label =>
    (registry.parameter? label).map fun existing => ⟨label, h.name, existing.name⟩

def addParameter (registry : Registry) (h : ParameterHandler) : Except AliasConflict Registry :=
  match registry.conflict? h with
  | some conflict => .error conflict
  | none => .ok { registry with parameters := registry.parameters ++ [h] }

def addFlag (registry : Registry) (h : FlagHandler) : Registry :=
  { registry with flags := registry.flags ++ [h] }

def addFlagUnless (registry : Registry) (p : FlagHandler → Bool) (h : FlagHandler) : Registry :=
  if registry.flags.any p then registry else registry.addFlag h

def removeFlags (registry : Registry) (p : FlagHandler → Bool) : Registry :=
  { registry with flags := registry.flags.filter (!p ·) }

def isSelection (h : FlagHandler) : Bool := h.name == Flags.selectionName

/-- Offers the selection flag with this provider unless it is offered already, or takes
it away. -/
def setSelection (registry : Registry) : Option SelectionProvider → Registry
  | some provider => registry.addFlagUnless isSelection (Flags.selection provider)
  | none => registry.removeFlags isSelection

end Registry
end AuditLog.Search
