import AuditLog.Toml.Moment
import AuditLog.Toml.Number
import AuditLog.Toml.Quoted

/-! Reading a TOML text: keys, values and the statements that build its tables. Headers
of arrays of tables, which no setting takes, are refused like a mistake. -/
namespace AuditLog.Toml

def isBareChar (c : Char) : Bool := c.isAlphanum || c == '_' || c == '-'

def simpleKey? : Reader String
  | '"' :: rest => short? ('"' :: rest)
  | '\'' :: rest => short? ('\'' :: rest)
  | cs =>
    let run := cs.takeWhile isBareChar
    if run.isEmpty then none else some (String.ofList run, cs.drop run.length)

/-- How many keys may be joined, and how deep brackets and braces may be nested. -/
def deepest : Nat := 79

/-- At most `count` keys joined by dots, with blanks around each. -/
def keysUpTo? : Nat → Reader (List String)
  | 0, _ => none
  | count + 1, cs => do
    let (key, rest) ← simpleKey? (skipSpace cs)
    match skipSpace rest with
    | '.' :: rest =>
      let (more, rest) ← keysUpTo? count rest
      return (key :: more, rest)
    | rest => return ([key], rest)

def keys? : Reader (List String) := keysUpTo? deepest

def pair? (value : Reader Toml) : Reader (List String × Toml) := fun cs => do
  let (keys, rest) ← keys? cs
  match rest with
  | '=' :: rest =>
    let (v, rest) ← value (skipSpace rest)
    return ((keys, v), rest)
  | _ => none

def items? (value : Reader Toml) : Nat → Reader (List Toml)
  | 0, _ => none
  | steps + 1, cs =>
    match skipBlank cs with
    | ']' :: rest => some ([], rest)
    | start => do
      let (v, rest) ← value start
      match skipBlank rest with
      | ',' :: rest =>
        let (more, rest) ← items? value steps rest
        return (v :: more, rest)
      | ']' :: rest => return ([v], rest)
      | _ => none

/-- At least one pair of a table in braces, and its closing brace. -/
def pairs? (value : Reader Toml) : Nat → Reader (List (List String × Toml))
  | 0, _ => none
  | steps + 1, cs => do
    let (pair, rest) ← pair? value cs
    match skipSpace rest with
    | ',' :: rest =>
      let (more, rest) ← pairs? value steps rest
      return (pair :: more, rest)
    | '\x7d' :: rest => return ([pair], rest)
    | _ => none

def braces? (value : Reader Toml) : Reader Toml := fun cs =>
  match skipSpace cs with
  | '\x7d' :: rest => some (.table .braces [], rest)
  | _ => do
    let (pairs, rest) ← pairs? value cs.length cs
    let entries ← pairs.foldlM (fun t pair => assign pair.1 pair.2 t) []
    return (.table .braces entries, rest)

/-- A value, in which brackets and braces are nested at most `depth` deep. -/
def value? : Nat → Reader Toml
  | depth, cs =>
    match cs with
    | [] => none
    | c :: rest =>
      if c == '"' || c == '\'' then (string? cs).map fun (s, rest) => (.text s, rest)
      else if c == '[' then
        match depth with
        | 0 => none
        | depth + 1 =>
          (items? (value? depth) cs.length rest).map fun (items, rest) => (.array items, rest)
      else if c == '\x7b' then
        match depth with
        | 0 => none
        | depth + 1 => braces? (value? depth) rest
      else if "true".toList.isPrefixOf cs then some (.bool true, cs.drop 4)
      else if "false".toList.isPrefixOf cs then some (.bool false, cs.drop 5)
      else if isMoment cs then moment? cs
      else number? cs
termination_by structural depth => depth

def header? : Reader (List String) := fun cs => do
  let (keys, rest) ← keys? cs
  match rest with
  | ']' :: rest => return (keys, rest)
  | _ => none

def statement? : Reader Statement
  | '[' :: rest => (header? rest).map fun (path, rest) => (.header path, rest)
  | cs => (pair? (value? deepest) cs).map fun ((keys, v), rest) => (.assignment keys v, rest)

def statements? : Nat → List Char → Option (List Statement)
  | 0, _ => none
  | steps + 1, cs =>
    match skipBlank cs with
    | [] => some []
    | start => do
      let (s, rest) ← statement? start
      let more ← statements? steps (← endOfLine? rest)
      return s :: more

def parse? (s : String) : Option Entries := do
  let cs := match s.toList with
    | '\uFEFF' :: rest => rest
    | cs => cs
  build [] [] (← statements? (cs.length + 1) cs)

end AuditLog.Toml
