import AuditLog.Document.Stored
import AuditLog.Store.Key

/-! A collection of stored records in order of creation. Expired records stay until they
are purged but are not scanned, nor are records whose text is no document. -/
namespace AuditLog

/-- A document's text with its times of creation and expiry, in microseconds. -/
structure StoredRecord where
  text : String
  created : Int64
  expires : Option Int64
deriving DecidableEq

namespace StoredRecord

def ofDocument (d : Document) (created : Int64) (expires : Option Int64) : StoredRecord :=
  ⟨d.stored, created, expires⟩

def isExpired (now : Int) (r : StoredRecord) : Bool := r.expires.any fun t => t.toInt ≤ now

def document? (r : StoredRecord) : Option Document := Document.ofStored? r.text

end StoredRecord

structure Store where
  records : Table RecordKey StoredRecord
  next : Nat
deriving Inhabited

namespace Store

def empty : Store := ⟨[], 0⟩

/-- A time before the epoch counts as the epoch. -/
def keyTime (us : Int) : Nat := us.toNat

def insert (store : Store) (r : StoredRecord) : Store × RecordKey :=
  let key : RecordKey := ⟨keyTime r.created.toInt, store.next⟩
  (⟨Table.insert key r store.records, store.next + 1⟩, key)

/-- Stores all records; the keys come in their order. -/
def insertAll (store : Store) : List StoredRecord → Store × List RecordKey
  | [] => (store, [])
  | r :: rest =>
    let (store, key) := store.insert r
    let (store, keys) := store.insertAll rest
    (store, key :: keys)

def get? (store : Store) (key : RecordKey) : Option StoredRecord :=
  Table.find? key store.records

def size (store : Store) : Nat := store.records.length

def live? (now : Int) (r : StoredRecord) : Option Document :=
  if r.isExpired now then none else r.document?

/-- The documents of live records from a time of creation on, oldest first. -/
def scanSince (store : Store) (since now : Int) : List Document :=
  (store.records.filter fun entry => keyTime since ≤ entry.1.created).filterMap fun entry =>
    live? now entry.2

def scan (store : Store) (now : Int) : List Document := store.scanSince 0 now

def purge (store : Store) (now : Int) : Store × Nat :=
  let kept := store.records.filter fun entry => !entry.2.isExpired now
  (⟨kept, store.next⟩, store.records.length - kept.length)

end Store

/-- Collections by name. They share one count of sequence numbers. -/
structure Database where
  collections : Table String (Table RecordKey StoredRecord)
  next : Nat

namespace Database

def empty : Database := ⟨[], 0⟩

def collection (db : Database) (name : String) : Store :=
  ⟨(Table.find? name db.collections).getD [], db.next⟩

def keep (db : Database) (name : String) (store : Store) : Database :=
  ⟨Table.insert name store.records db.collections, store.next⟩

end Database
end AuditLog
