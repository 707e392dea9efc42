import AuditLog.Config.Storage
import AuditLog.Search.Registry
import AuditLog.Toml.Reader

/-! The configuration of the program: built-in settings, over which a TOML text may lay
its own. A text is refused as a whole for an unknown name or a value of the wrong
kind; what only its use can judge is left to `validate`. -/
namespace AuditLog

/-- All settings. Times are in milliseconds. -/
structure Config where
  storage : Config.Storage
  search : Search.Settings
  searchTimeout : Nat
  flushInterval : Nat
  zone : Zone
  players : Table String Uuid
deriving Inhabited

inductive ConfigError where
  | unreadable (path : String)
  | malformed
  | offset (minutes : Int)
  | storage (e : Config.StorageError)
  | defaultTime (text : String)
  | flushInterval
deriving DecidableEq

def ConfigError.message : ConfigError → String
  | .unreadable path => "io error: cannot read '" ++ path ++ "'"
  | .malformed => "configuration error: the text is not a configuration"
  | .offset minutes => "configuration error: invalid UTC offset " ++ toString minutes ++ "m"
  | .storage e => "storage error: " ++ e.message
  | .defaultTime text => "configuration error: invalid default search time '" ++ text ++ "'"
  | .flushInterval => "configuration error: flush interval must be positive"

namespace Config

def standard : Config := ⟨.standard, .standard, 30000, 1000, .utc, []⟩

/-- Checks the settings that are judged on use: first the expiry of records, then the
default time of searches and the interval of flushes. -/
def validate (now : Instant) (config : Config) : Except ConfigError Unit :=
  match config.storage.retention now with
  | .error e => .error (.storage e)
  | .ok _ =>
    if (Span.parse? config.search.defaultTime).isNone then
      .error (.defaultTime config.search.defaultTime)
    else if config.flushInterval = 0 then .error .flushInterval
    else .ok ()

def text? : Toml → Option String
  | .text s => some s
  | _ => none

def bool? : Toml → Option Bool
  | .bool b => some b
  | _ => none

def natBelow? (bound : Nat) : Toml → Option Nat
  | .int i => if 0 ≤ i && i < bound then some i.toNat else none
  | _ => none

def count? : Toml → Option Nat := natBelow? 0x8000000000000000

def radius? : Toml → Option Nat := natBelow? 0x100000000

def minutes? : Toml → Option Int
  | .int i => if -0x80000000 ≤ i && i < 0x80000000 then some i else none
  | _ => none

/-- An identifier in text, or the list of its bytes. -/
def uuid? : Toml → Option Uuid
  | .text s => Uuid.parse? s
  | .array items => do
    let bytes ← (items.take 16).mapM (natBelow? 256)
    if bytes.length = 16 then return .ofBytes bytes else none
  | _ => none

/-- The entries of a section. It is a table with no other names than these, or an array of
values in the order of the names. -/
def section? (names : List String) : Option Toml → Option Toml.Entries
  | none => some []
  | some (.table _ entries) =>
    if entries.all fun entry => names.contains entry.1 then some entries else none
  | some (.array items) => some (names.zip items)
  | some _ => none

def setting {α : Type} (entries : Toml.Entries) (name : String) (read : Toml → Option α)
    (standard : α) : Option α :=
  match Table.find? name entries with
  | some v => read v
  | none => some standard

def storage? (v : Option Toml) : Option Storage := do
  let given ← section?
    ["handler", "path", "collection", "record_expiry", "cache_capacity", "compression"] v
  let standard := Storage.standard
  return { standard with
    handler := ← setting given "handler" text? standard.handler
    path := ← setting given "path" text? standard.path
    collection := ← setting given "collection" text? standard.collection
    expiry := ← setting given "record_expiry" text? standard.expiry
    cacheCapacity := ← setting given "cache_capacity" count? standard.cacheCapacity
    compression := ← setting given "compression" bool? standard.compression }

/-- Numbers of seconds become milliseconds. -/
def seconds? (v : Toml) : Option Nat := (count? v).map (· * 1000)

def search? (v : Option Toml) : Option Search.Settings := do
  let given ← section?
    ["defaults_enabled", "default_radius", "radius_limit", "default_search_time", "search_limit",
      "compile_timeout_secs", "selection_integration"] v
  let standard := Search.Settings.standard
  return {
    defaultsEnabled := ← setting given "defaults_enabled" bool? standard.defaultsEnabled
    defaultRadius := ← setting given "default_radius" radius? standard.defaultRadius
    radiusLimit := ← setting given "radius_limit" radius? standard.radiusLimit
    defaultTime := ← setting given "default_search_time" text? standard.defaultTime
    limit := ← setting given "search_limit" count? standard.limit
    timeout := ← setting given "compile_timeout_secs" seconds? standard.timeout
    selectionEnabled := ← setting given "selection_integration" bool? standard.selectionEnabled }

def players? : Option Toml → Option (Table String Uuid)
  | none => some []
  | some (.table _ entries) => entries.mapM fun entry => do return (entry.1, ← uuid? entry.2)
  | some _ => none

/-- The configuration with the offset from UTC in minutes still to be judged. -/
def ofEntries? (entries : Toml.Entries) : Option (Config × Int) := do
  let top ← section? ["storage", "query", "server", "players"] (some (.table .header entries))
  let storage ← storage? (Table.find? "storage" top)
  let search ← search? (Table.find? "query" top)
  let server ← section? ["query_timeout_secs", "flush_interval_ms", "utc_offset_minutes"]
    (Table.find? "server" top)
  let searchTimeout ← setting server "query_timeout_secs" seconds? standard.searchTimeout
  let flushInterval ← setting server "flush_interval_ms" count? standard.flushInterval
  let minutes ← setting server "utc_offset_minutes" minutes? 0
  let players ← players? (Table.find? "players" top)
  return (⟨storage, search, searchTimeout, flushInterval, .utc, players⟩, minutes)

def ofText (s : String) : Except ConfigError Config :=
  match (Toml.parse? s).bind ofEntries? with
  | none => .error .malformed
  | some (config, minutes) =>
    match Zone.of? (60 * minutes) with
    | none => .error (.offset minutes)
    | some zone => .ok { config with zone := zone }

end Config
end AuditLog
