import AuditLog.Condition

/-! Why a search cannot be compiled. The messages are for the requester. -/
namespace AuditLog.Search

inductive SearchError where
  | unknownFlag (label : String)
  | flagNotAllowed (label : String)
  | invalidValue (label value : String)
  | missingFlagValue (label : String)
  | emptyValue (name : String)
  | unknownParameter (label : String)
  | notAllowed (label : String)
  | conflict (label value otherAlias otherValue : String)
  | unknownPlayer (name : String)
  | noSelection
  | unresolved (reason : String)
  | timeout (millis : Nat)
  | condition (e : ConditionError)
deriving DecidableEq

namespace SearchError

def quote (s : String) : String := "'" ++ s ++ "'"

def message : SearchError → String
  | .unknownFlag label => quote label ++ " is not a valid flag. No handler was found."
  | .flagNotAllowed label => quote label ++ " cannot be used by this command source."
  | .invalidValue label value =>
    "Invalid value " ++ quote value ++ " for parameter " ++ quote label
  | .missingFlagValue label => "Flag " ++ quote label ++ " requires a value"
  | .emptyValue name => "Invalid empty value for parameter " ++ quote name
  | .unknownParameter label => quote label ++ " is not a valid parameter. No handler was found."
  | .notAllowed label => quote label ++ " cannot be run as the current command source"
  | .conflict label value otherAlias otherValue =>
    "Parameter " ++ quote (label ++ ":" ++ value) ++ " conflicts with other parameter: " ++
      quote (otherAlias ++ ":" ++ otherValue)
  | .unknownPlayer name => "Could not find a player named " ++ quote name
  | .noSelection => "You do not have an active selection"
  | .unresolved reason => reason
  | .timeout millis =>
    "Timed out after " ++ toString (millis / 1000) ++ "s while resolving search parameters"
  | .condition e => "invalid condition: " ++ e.message

end SearchError
end AuditLog.Search
