import AuditLog.Store.Key
import Mathlib.Tactic.Ring

/-! Record keys as bytes. Keys whose parts fit eight bytes compare as their bytes do, so a tree
ordered by the bytes is ordered by the keys. Each key is read back from its bytes, and any sixteen
bytes are those of one key. -/
namespace AuditLog.RecordKey

theorem unit_pos (width : Nat) : 0 < 256 ^ width := Nat.pow_pos (by decide)

theorem bytesOf_succ (width n : Nat) :
    bytesOf (width + 1) n = UInt8.ofNat (n / 256 ^ width) :: bytesOf width n := by
  simp [bytesOf, List.range_succ]

theorem length_bytesOf (width n : Nat) : (bytesOf width n).length = width := by
  simp [bytesOf]

/-- The low bytes do not depend on what stands above them. -/
theorem bytesOf_mod (width n : Nat) : bytesOf width (n % 256 ^ width) = bytesOf width n := by
  apply List.map_congr_left
  intro place member
  have below : place < width := by simpa using member
  obtain ⟨more, rfl⟩ := Nat.exists_eq_add_of_lt below
  apply UInt8.toNat_inj.mp
  rw [UInt8.toNat_ofNat', UInt8.toNat_ofNat', Nat.pow_eq, Nat.add_assoc, Nat.pow_add,
    Nat.mod_mul_right_div_self, Nat.pow_succ', Nat.mod_mul_right_mod]

theorem compare_toNat (x y : UInt8) : compare x y = compare x.toNat y.toNat := by
  change compareOfLessAndEq x y = compareOfLessAndEq x.toNat y.toNat
  simp only [compareOfLessAndEq, UInt8.lt_iff_toNat_lt, UInt8.toNat_inj]

theorem compare_split (a b unit : Nat) :
    compare a b = (compare (a / unit) (b / unit)).then (compare (a % unit) (b % unit)) := by
  rcases Nat.lt_trichotomy (a / unit) (b / unit) with less | same | more
  · rw [Nat.compare_eq_lt.mpr less, Nat.compare_eq_lt.mpr (Nat.lt_of_div_lt_div less)]
    rfl
  · have partsA := Nat.div_add_mod a unit
    have partsB := Nat.div_add_mod b unit
    rw [same] at partsA
    have less : a < b ↔ a % unit < b % unit := by omega
    have more : b < a ↔ b % unit < a % unit := by omega
    rw [Nat.compare_eq_eq.mpr same, Ordering.eq_then]
    simp only [Nat.compare_eq_ite_lt, less, more]
  · rw [Nat.compare_eq_gt.mpr more, Nat.compare_eq_gt.mpr (Nat.lt_of_div_lt_div more)]
    rfl

theorem compare_bytesOf {width a b : Nat} (fitsA : a < 256 ^ width) (fitsB : b < 256 ^ width) :
    compare (bytesOf width a) (bytesOf width b) = compare a b := by
  induction width generalizing a b with
  | zero =>
    obtain rfl : a = 0 := Nat.lt_one_iff.mp fitsA
    obtain rfl : b = 0 := Nat.lt_one_iff.mp fitsB
    rfl
  | succ width ih =>
    have leading {n : Nat} (fits : n < 256 ^ (width + 1)) :
        (UInt8.ofNat (n / 256 ^ width)).toNat = n / 256 ^ width := by
      have small : n / 256 ^ width < 256 := by
        rw [Nat.div_lt_iff_lt_mul (unit_pos width), ← Nat.pow_succ']
        exact fits
      rw [UInt8.toNat_ofNat', Nat.mod_eq_of_lt small]
    have tail := ih (Nat.mod_lt a (unit_pos width)) (Nat.mod_lt b (unit_pos width))
    rw [bytesOf_mod, bytesOf_mod] at tail
    rw [bytesOf_succ, bytesOf_succ, List.compare_cons_cons, compare_toNat, leading fitsA,
      leading fitsB, tail, ← compare_split]

theorem compare_append {front front' back back' : List UInt8}
    (aligned : front.length = front'.length) :
    compare (front ++ back) (front' ++ back') =
      (compare front front').then (compare back back') := by
  induction front generalizing front' with
  | nil =>
    obtain rfl := List.length_eq_zero_iff.mp aligned.symm
    rfl
  | cons x front ih =>
    cases front' with
    | nil => cases aligned
    | cons y front' =>
      rw [List.cons_append, List.cons_append, List.compare_cons_cons, List.compare_cons_cons,
        ih (Nat.succ.inj aligned), Ordering.then_assoc]

/-- Both parts fit eight bytes. -/
structure Fits (key : RecordKey) : Prop where
  created : key.created < 2 ^ 64
  sequence : key.sequence < 2 ^ 64

/-- The bytes of keys sort as the keys compare. -/
theorem compare_encode {a b : RecordKey} (fitsA : a.Fits) (fitsB : b.Fits) :
    compare a.encode b.encode = compare a b := by
  have times := @compare_bytesOf 8 _ _ fitsA.created fitsB.created
  have numbers := @compare_bytesOf 8 _ _ fitsA.sequence fitsB.sequence
  rw [encode, encode, compare_append, times, numbers]
  · rfl
  · rw [length_bytesOf, length_bytesOf]

/-! Reading bytes back, by their places. -/

section Read

theorem foldl_bytes (bytes : List UInt8) (total : Nat) :
    bytes.foldl (fun total b => 256 * total + b.toNat) total =
      total * 256 ^ bytes.length + ofBytes bytes := by
  induction bytes generalizing total with
  | nil => simp [ofBytes]
  | cons b bytes ih =>
    rw [ofBytes, List.foldl_cons, List.foldl_cons, ih, ih (256 * 0 + b.toNat), List.length_cons]
    ring

theorem ofBytes_cons (b : UInt8) (bytes : List UInt8) :
    ofBytes (b :: bytes) = b.toNat * 256 ^ bytes.length + ofBytes bytes := by
  rw [ofBytes, List.foldl_cons, foldl_bytes, Nat.mul_zero, Nat.zero_add]

theorem ofBytes_lt (bytes : List UInt8) : ofBytes bytes < 256 ^ bytes.length := by
  induction bytes with
  | nil => exact Nat.one_pos
  | cons b bytes ih =>
    have digit : b.toNat < 256 := b.toNat_lt
    rw [ofBytes_cons, List.length_cons, Nat.pow_succ']
    calc b.toNat * 256 ^ bytes.length + ofBytes bytes
        < b.toNat * 256 ^ bytes.length + 256 ^ bytes.length := Nat.add_lt_add_left ih _
      _ = (b.toNat + 1) * 256 ^ bytes.length := (Nat.succ_mul _ _).symm
      _ ≤ 256 * 256 ^ bytes.length := Nat.mul_le_mul_right _ digit

theorem ofBytes_bytesOf (width n : Nat) : ofBytes (bytesOf width n) = n % 256 ^ width := by
  induction width with
  | zero => exact (Nat.mod_one n).symm
  | succ width ih =>
    rw [bytesOf_succ, ofBytes_cons, length_bytesOf, ih, UInt8.toNat_ofNat',
      Nat.mod_pow_succ (x := n)]
    ring

theorem bytesOf_ofBytes (bytes : List UInt8) : bytesOf bytes.length (ofBytes bytes) = bytes := by
  induction bytes with
  | nil => rfl
  | cons b bytes ih =>
    have front : ofBytes (b :: bytes) / 256 ^ bytes.length = b.toNat := by
      rw [ofBytes_cons, Nat.mul_comm, Nat.mul_add_div (unit_pos _),
        Nat.div_eq_of_lt (ofBytes_lt bytes), Nat.add_zero]
    have rest : ofBytes (b :: bytes) % 256 ^ bytes.length = ofBytes bytes := by
      rw [ofBytes_cons, Nat.mul_comm, Nat.mul_add_mod, Nat.mod_eq_of_lt (ofBytes_lt bytes)]
    rw [List.length_cons, bytesOf_succ, front, UInt8.ofNat_toNat, ← bytesOf_mod, rest, ih]

end Read

theorem length_encode (key : RecordKey) : key.encode.length = 16 := by
  rw [encode, List.length_append, length_bytesOf, length_bytesOf]

theorem decode?_encode {key : RecordKey} (fits : key.Fits) : decode? key.encode = some key := by
  have read (n : Nat) (small : n < 256 ^ 8) : ofBytes (bytesOf 8 n) = n := by
    rw [ofBytes_bytesOf, Nat.mod_eq_of_lt small]
  have front : key.encode.take 8 = bytesOf 8 key.created :=
    List.take_left' (length_bytesOf 8 key.created)
  have back : key.encode.drop 8 = bytesOf 8 key.sequence :=
    List.drop_left' (length_bytesOf 8 key.created)
  rw [decode?, if_pos key.length_encode, front, back, read _ fits.created, read _ fits.sequence]

/-- Sixteen bytes are the encoding of the key that they are read as. -/
theorem encode_of_decode? {bytes : List UInt8} {key : RecordKey} (read : decode? bytes = some key) :
    key.Fits ∧ key.encode = bytes := by
  unfold decode? at read
  split at read
  next width =>
    cases read
    have part (bytes : List UInt8) (eight : bytes.length = 8) :
        ofBytes bytes < 2 ^ 64 ∧ bytesOf 8 (ofBytes bytes) = bytes := by
      have small := ofBytes_lt bytes
      have same := bytesOf_ofBytes bytes
      rw [eight] at small same
      exact ⟨small, same⟩
    obtain ⟨created, front⟩ := part (bytes.take 8) (by simp [width])
    obtain ⟨sequence, back⟩ := part (bytes.drop 8) (by simp [width])
    refine ⟨⟨created, sequence⟩, ?_⟩
    rw [encode, front, back, List.take_append_drop]
  next => cases read

theorem exists_decode? (bytes : List UInt8) :
    (∃ key, decode? bytes = some key) ↔ bytes.length = 16 := by
  rw [← Option.isSome_iff_exists, decode?]
  split
  next width => simp [width]
  next other => simp [other]

/-- Keys compare by their times and then by their numbers, and so do their bytes. A key is read back
from its bytes, and any sixteen bytes, but no others, are those of the key read from them. -/
theorem sorted_as_bytes {a b : RecordKey} (fitsA : a.Fits) (fitsB : b.Fits) :
    compare a.encode b.encode =
        (compare a.created b.created).then (compare a.sequence b.sequence) ∧
      decode? a.encode = some a ∧
      ∀ bytes, ((∃ key, decode? bytes = some key) ↔ bytes.length = 16) ∧
        ∀ key, decode? bytes = some key → key.Fits ∧ key.encode = bytes := by
  refine ⟨compare_encode fitsA fitsB, decode?_encode fitsA, ?_⟩
  intro bytes
  exact ⟨exists_decode? bytes, fun _ => encode_of_decode?⟩

/-- The greatest number of one microsecond sorts before the least of the next. -/
theorem next_microsecond_sorts_later :
    compare (encode ⟨255, 2 ^ 64 - 1⟩) (encode ⟨256, 0⟩) = .lt ∧
      decode? (encode ⟨255, 2 ^ 64 - 1⟩) = some ⟨255, 2 ^ 64 - 1⟩ := by
  obtain ⟨order, read, -⟩ := @sorted_as_bytes ⟨255, 2 ^ 64 - 1⟩ ⟨256, 0⟩
    ⟨by decide, by decide⟩ ⟨by decide, by decide⟩
  exact ⟨order, read⟩

end AuditLog.RecordKey
