import AuditLog.Table
import AuditLog.Text.Split
import AuditLog.Uuid

/-! Known players, by name and by identifier. Names are looked up without regard to
letter case; a player has one name at a time. -/
namespace AuditLog

instance : Ord Uuid := ⟨fun a b => compare a.bits.toNat b.bits.toNat⟩

structure Players where
  byName : Table String Uuid
  byId : Table Uuid String
deriving Inhabited

namespace Players

def empty : Players := ⟨[], []⟩

/-- Gives `id` the name `name`; the entry under its previous name goes. -/
def insert (players : Players) (name : String) (id : Uuid) : Players :=
  let kept := match Table.find? id players.byId with
    | some previous => Table.erase (Text.lower previous) players.byName
    | none => players.byName
  ⟨Table.insert (Text.lower name) id kept, Table.insert id name players.byId⟩

def ofList (entries : List (String × Uuid)) : Players :=
  entries.foldl (fun players entry => players.insert entry.1 entry.2) empty

def id? (players : Players) (name : String) : Option Uuid :=
  Table.find? (Text.lower name) players.byName

def name? (players : Players) (id : Uuid) : Option String := Table.find? id players.byId

def size (players : Players) : Nat := players.byId.length

end Players
end AuditLog
