/-! Keys of stored records: the time of creation and a sequence number, in eight bytes
each with the most significant byte first, so that keys sort as their bytes do. -/
namespace AuditLog

structure RecordKey where
  created : Nat
  sequence : Nat
deriving DecidableEq

namespace RecordKey

instance : Ord RecordKey :=
  ⟨fun a b => (compare a.created b.created).then (compare a.sequence b.sequence)⟩

/-- The low `width` bytes of a number, the most significant first. -/
def bytesOf (width n : Nat) : List UInt8 :=
  (List.range width).reverse.map fun place => UInt8.ofNat (n / Nat.pow 256 place)

def ofBytes (bytes : List UInt8) : Nat := bytes.foldl (fun total b => 256 * total + b.toNat) 0

/-- The bytes of a key whose parts are below `2 ^ 64`. -/
def encode (key : RecordKey) : List UInt8 := bytesOf 8 key.created ++ bytesOf 8 key.sequence

def decode? (bytes : List UInt8) : Option RecordKey :=
  if bytes.length = 16 then some ⟨ofBytes (bytes.take 8), ofBytes (bytes.drop 8)⟩ else none

end RecordKey
end AuditLog
