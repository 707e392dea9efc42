import AuditLog.Event
import AuditLog.Field
import AuditLog.IpAddress
import AuditLog.Players
import AuditLog.Search.Handler
import AuditLog.Time.Span

/-! The built-in parameters. Most compare one field with a list of values; radius and
time also stand in for themselves when they are not given. -/
namespace AuditLog.Search

namespace Parameters

def noConflict (_ _ : Argument) : Bool := false

def noStandIn (_ : Instant) (_ : Session) (_ : Query) :
    Except SearchError (Option (Argument × List Condition)) := .ok none

def anyone (_ : Requester) : Bool := true

/-- A parameter that anyone may use and that adds one condition at once. -/
def plain (name : String) (aliases : List String) (accepts : String → Bool)
    (condition : Argument → Except SearchError Condition) : ParameterHandler where
  name := name
  aliases := aliases
  allows := anyone
  accepts _ := accepts
  conflicts := noConflict
  build _ _ argument := (condition argument).map Contribution.ofCondition
  standIn := noStandIn

def event : ParameterHandler :=
  plain "event" ["a", "event", "action"]
    (fun value => !(Text.values value).isEmpty && (Text.values value).all EventKind.isKnown)
    fun argument => .ok (.oneOf Field.event ((Text.values argument.value).map Text.lower))

def isIdentifierChar (c : Char) : Bool :=
  c.isAlphanum || c == '_' || c == '-' || c == ':' || c == '.'

/-- Comma separated identifiers, none of them empty. -/
def isIdentifierList (value : String) : Bool :=
  (Text.split ',' value).all fun s => !s.isEmpty && s.toList.all isIdentifierChar

def literal (name : String) (aliases : List String) (field : Path)
    (field_ne : field.segments ≠ []) : ParameterHandler :=
  plain name aliases isIdentifierList
    fun argument =>
      .ok (.oneOf field ((Text.values argument.value).map Text.lower) field_ne)

def cause : ParameterHandler := literal "cause" ["c", "cause"] Field.cause (by decide)
def block : ParameterHandler := literal "block" ["b", "block"] Field.block (by decide)
def item : ParameterHandler := literal "item" ["i", "item"] Field.itemType (by decide)
def entity : ParameterHandler := literal "entity" ["e", "entity"] Field.entity (by decide)
def target : ParameterHandler := literal "target" ["tg", "target"] Field.target (by decide)

def radiusAliases : List String := ["r", "radius"]
def worldAliases : List String := ["w", "world"]

/-- World names keep their letter case, and a world excludes a radius. -/
def world : ParameterHandler :=
  { plain "world" worldAliases isIdentifierList
      (fun argument => .ok (.oneOf Field.world (Text.values argument.value))) with
    conflicts := fun _ given => answersTo radiusAliases given.label }

/-- Free text in which an underscore stands for a space. -/
def freeText (name : String) (aliases : List String) (field : Path)
    (field_ne : field.segments ≠ []) : ParameterHandler :=
  plain name aliases (!·.isEmpty)
    fun argument =>
      .ok (.equalsText field (argument.value.map fun c => if c == '_' then ' ' else c) field_ne)

def message : ParameterHandler :=
  freeText "message" ["m", "message"] Field.message (by decide)
def itemName : ParameterHandler :=
  freeText "item-name" ["iname", "itemname"] Field.itemName (by decide)
def itemLore : ParameterHandler :=
  freeText "item-desc" ["idesc", "itemdesc"] Field.itemLore (by decide)

/-- Addresses are compared in their canonical form. -/
def ip : ParameterHandler :=
  plain "ip" ["ip"]
    (fun value => (Text.split ',' value).all fun s => (IpAddress.parse? s).isSome)
    fun argument =>
      match (Text.values argument.value).mapM IpAddress.parse? with
      | some addresses => .ok (.oneOf Field.ip (addresses.map IpAddress.text))
      | none => .error (.invalidValue argument.label argument.value)

def yesOrNo? (value : String) : Option Bool :=
  let word := Text.lower value
  if word == "y" || word == "yes" || word == "true" then some true
  else if word == "n" || word == "no" || word == "false" then some false
  else none

def custom : ParameterHandler :=
  plain "custom" ["cu", "custom"] (fun value => (yesOrNo? value).isSome)
    fun argument =>
      match yesOrNo? argument.value with
      | some b => .ok (.present Field.itemMeta b)
      | none => .error (.invalidValue argument.label argument.value)

def isPlayerName (s : String) : Bool :=
  1 ≤ s.length && s.length ≤ 16 && s.toList.all fun c => c.isAlphanum || c == '_'

def identifiers (players : Players) (names : List String) : Except SearchError (List String) :=
  names.mapM fun name =>
    match players.id? name with
    | some id => .ok id.text
    | none => .error (.unknownPlayer name)

def playerLookup (players : Players) (field : Path) (field_ne : field.segments ≠ [])
    (value : String) : Lookup :=
  match identifiers players (Text.values value) with
  | .ok ids => .found [.oneOf field ids field_ne]
  | .error e => .failed e

/-- A parameter on player names, which a lookup turns into identifiers. -/
def named (name : String) (aliases : List String) (field : Path)
    (field_ne : field.segments ≠ []) (players : Players) : ParameterHandler where
  name := name
  aliases := aliases
  allows := anyone
  accepts _ value := (Text.split ',' value).all isPlayerName
  conflicts := noConflict
  build _ _ argument := .ok ⟨[], some (playerLookup players field field_ne argument.value)⟩
  standIn := noStandIn

def player : Players → ParameterHandler :=
  named "player" ["p", "player"] Field.player (by decide)
def recipient : Players → ParameterHandler :=
  named "recipient" ["rc", "recipient"] Field.recipient (by decide)

def cube (place : Location) (radius : Nat) : List Condition :=
  let r := Double.ofInt radius
  [.equalsText Field.world place.world,
    .within Field.x (place.x.sub r) (place.x.add r),
    .within Field.y (place.y.sub r) (place.y.add r),
    .within Field.z (place.z.sub r) (place.z.add r)]

def radius? (value : String) : Option Nat := Text.natBelow? 0x100000000 value

/-- A cube around the requester, no larger than `limit` without the permission for more. -/
def radius (standard limit : Nat) : ParameterHandler where
  name := "radius"
  aliases := radiusAliases
  allows requester := requester.location?.isSome
  accepts _ value := (radius? value).isSome
  conflicts _ given := answersTo worldAliases given.label
  build _ session argument :=
    match session.requester.location? with
    | none => .error (.notAllowed argument.label)
    | some place =>
      match radius? argument.value with
      | none => .error (.invalidValue argument.label argument.value)
      | some wanted =>
        let unlimited := session.requester.may Requester.unlimitedRadius
        .ok ⟨cube place (if limit < wanted && !unlimited then limit else wanted), none⟩
  standIn _ session query :=
    match session.requester.location? with
    | none => .ok none
    | some place =>
      if query.references Field.world then .ok none
      else .ok (some (⟨"r", toString standard⟩, cube place standard))

def cutoff? (now : Instant) (value : String) : Option Instant :=
  (Span.parse? value).bind fun span => now.shift? (-span)

def sinceCutoff (now : Instant) (argument : Argument) : Except SearchError Condition :=
  match cutoff? now argument.value with
  | some t => .ok (.since Field.created t)
  | none => .error (.invalidValue argument.label argument.value)

def time (standard : String) : ParameterHandler where
  name := "time"
  aliases := ["t", "time", "since"]
  allows := anyone
  accepts now value := (cutoff? now value).isSome
  conflicts := noConflict
  build now _ argument := (sinceCutoff now argument).map Contribution.ofCondition
  standIn now _ _ :=
    (sinceCutoff now ⟨"t", standard⟩).map fun c => some (⟨"t", standard⟩, [c])

end Parameters
end AuditLog.Search
