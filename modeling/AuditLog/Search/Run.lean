import AuditLog.Event
import AuditLog.Search.Compile

/-! One search from its arguments to its rows. A requester sees the errors that arguments
cause and a timeout; any other failure is hidden behind one message. -/
namespace AuditLog.Search

inductive Answer where
  | entries (rows : List Entry)
  | failed
  | never

inductive Failure where
  | refused (e : SearchError)
  | timeout (millis : Nat)
  | hidden
deriving DecidableEq

def Failure.message : Failure → String
  | .refused e => e.message
  | .timeout millis => "search timed out after " ++ toString (millis / 1000) ++ "s"
  | .hidden => "An error occurred while searching. See the server log."

structure Results where
  entries : List Entry
  notice : Option String

def request (compiler : Compiler) (now : Instant) (zone : Zone) (requester : Requester)
    (arguments : String) : Except SearchError (Session × Option String) := do
  let (session, prepared) := compiler.prepare now (.start requester zone) (Text.words arguments)
  let compiled ← prepared
  let query ← compiled.resolve
  return ({ session with query := query }, compiled.notice?)

/-- Asks for the entries of a search, waiting at most `timeout` milliseconds. -/
def run (compiler : Compiler) (now : Instant) (zone : Zone) (timeout : Nat)
    (ask : Session → Answer) (requester : Requester) (arguments : String) :
    Except Failure Results := do
  let (session, notice) ←
    (request compiler now zone requester arguments).mapError Failure.refused
  match ask session with
  | .entries rows => return ⟨rows, notice⟩
  | .failed => throw .hidden
  | .never => throw (.timeout timeout)

end AuditLog.Search
