import AuditLog.Config

/-! The command line. Options have a long name and some a letter; a value follows an
equals sign, a letter directly, or as the next argument, which then may not look like
an option. No option is given twice. -/
namespace AuditLog

inductive CommandOption where
  | config (path : String)
  | dataPath (path : String)
  | expiry (text : String)
  | searchTimeout (seconds : Nat)
  | noDefaults
deriving DecidableEq

namespace CommandOption

def sameName : CommandOption → CommandOption → Bool
  | .config _, .config _ => true
  | .dataPath _, .dataPath _ => true
  | .expiry _, .expiry _ => true
  | .searchTimeout _, .searchTimeout _ => true
  | .noDefaults, .noDefaults => true
  | _, _ => false

/-- The option with a long name and a value; paths are not empty. -/
def ofName? (name value : String) : Option CommandOption :=
  if name == "config" then if value.isEmpty then none else some (.config value)
  else if name == "data-path" then if value.isEmpty then none else some (.dataPath value)
  else if name == "record-expiry" then some (.expiry value)
  else if name == "query-timeout" then (Text.natBelow? 0x10000000000000000 value).map .searchTimeout
  else none

/-- What is attached to a letter, after an equals sign or directly. -/
def attached? : List Char → Option String
  | [] => none
  | '=' :: value => some (String.ofList value)
  | value => some (String.ofList value)

def head? : List Char → Option (String × Option String)
  | '-' :: '-' :: cs =>
    match Text.cutWhere (· == '=') cs with
    | some (name, value) => some (String.ofList name, some (String.ofList value))
    | none => some (String.ofList cs, none)
  | '-' :: 'c' :: rest => some ("config", attached? rest)
  | '-' :: 'd' :: rest => some ("data-path", attached? rest)
  | _ => none

/-- A single hyphen is a value, and so is anything that does not begin with one. -/
def isValue (argument : String) : Bool :=
  argument == "-" || argument.toList.head? != some '-'

/-- Two hyphens may end the options; nothing follows them. -/
def parse? : List String → Option (List CommandOption)
  | [] => some []
  | argument :: rest =>
    if argument == "--" then if rest.isEmpty then some [] else none
    else if argument == "--no-defaults" then (parse? rest).map (.noDefaults :: ·)
    else
      match head? argument.toList, rest with
      | some (name, some value), rest => do return (← ofName? name value) :: (← parse? rest)
      | some (name, none), value :: rest =>
        if isValue value then do return (← ofName? name value) :: (← parse? rest) else none
      | some (_, none), [] => none
      | none, _ => none

def all? (arguments : List String) : Option (List CommandOption) :=
  (parse? arguments).filter fun options =>
    options.all fun o => (options.filter o.sameName).length = 1

def file? (options : List CommandOption) : Option String :=
  options.findSome? fun
    | .config path => some path
    | _ => none

def override (config : Config) : CommandOption → Config
  | .config _ => config
  | .dataPath path => { config with storage := { config.storage with path := path } }
  | .expiry text => { config with storage := { config.storage with expiry := text } }
  | .searchTimeout seconds => { config with searchTimeout := 1000 * seconds }
  | .noDefaults => { config with search := { config.search with defaultsEnabled := false } }

end CommandOption

namespace Config

/-- The configuration in a file, given the text of every readable file. -/
def ofFile (read : String → Option String) (path : String) : Except ConfigError Config :=
  match read path with
  | some text => ofText text
  | none => .error (.unreadable path)

/-- The valid configuration that options make of a file, or of the standard settings. -/
def ofOptions (now : Instant) (read : String → Option String) (options : List CommandOption) :
    Except ConfigError Config := do
  let base ← match CommandOption.file? options with
    | some path => ofFile read path
    | none => .ok standard
  let config := options.foldl CommandOption.override base
  config.validate now
  return config

end Config
end AuditLog
