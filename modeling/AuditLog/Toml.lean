import AuditLog.Number.Double
import AuditLog.Table

/-! TOML values: strings, numbers, moments, booleans, arrays and tables of them.
A table is given once: under its header, by dotted keys, or in braces. Only a table
that is known from the headers of its parts alone may still get its own header. -/
namespace AuditLog

/-- How a table came about, which decides where it may still grow. -/
inductive TableOrigin where
  | header
  | implied
  | dotted
  | braces
deriving DecidableEq

inductive Toml where
  | text (s : String)
  | int (i : Int)
  | double (x : Double)
  | bool (b : Bool)
  | moment (written : String)
  | array (items : List Toml)
  | table (origin : TableOrigin) (entries : List (String × Toml))
deriving Inhabited

namespace Toml

abbrev Entries := Table String Toml

/-- Sets a dotted key, whose tables may have been begun by dotted keys before. -/
def assign : List String → Toml → Entries → Option Entries
  | [], _, _ => none
  | [key], v, t => if Table.has key t then none else some (Table.insert key v t)
  | key :: rest, v, t =>
    match Table.find? key t with
    | none => (assign rest v []).map fun inner => Table.insert key (.table .dotted inner) t
    | some (.table .dotted entries) =>
      (assign rest v entries).map fun inner => Table.insert key (.table .dotted inner) t
    | some (.table .implied entries) =>
      if rest.length = 1 then none
      else (assign rest v entries).map fun inner => Table.insert key (.table .implied inner) t
    | some _ => none

def begin : List String → Entries → Option Entries
  | [], _ => none
  | [key], t =>
    match Table.find? key t with
    | none => some (Table.insert key (.table .header []) t)
    | some (.table .implied entries) => some (Table.insert key (.table .header entries) t)
    | some _ => none
  | key :: rest, t =>
    match Table.find? key t with
    | none => (begin rest []).map fun inner => Table.insert key (.table .implied inner) t
    | some (.table .braces _) => none
    | some (.table origin entries) =>
      (begin rest entries).map fun inner => Table.insert key (.table origin inner) t
    | some _ => none

/-- Sets a dotted key in the table of the header `path`. -/
def assignUnder : List String → List String → Toml → Entries → Option Entries
  | [], keys, v, t => assign keys v t
  | key :: rest, keys, v, t =>
    match Table.find? key t with
    | some (.table origin entries) =>
      (assignUnder rest keys v entries).map fun inner => Table.insert key (.table origin inner) t
    | _ => none

inductive Statement where
  | header (path : List String)
  | assignment (keys : List String) (v : Toml)

/-- The table that statements build, the last header being `path`. -/
def build (path : List String) (t : Entries) : List Statement → Option Entries
  | [] => some t
  | .header path :: rest => do build path (← begin path t) rest
  | .assignment keys v :: rest => do build path (← assignUnder path keys v t) rest

end Toml
end AuditLog
