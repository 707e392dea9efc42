import AuditLog.Document.Display
import AuditLog.Proofs.ShortestDecimal
import AuditLog.Proofs.StoredText

/-! The pieces of displayed values, each read in one way only. A quoted text ends with its second
quote, since every character is read back from its escape; an instant holds no quote; and numbers
and words are runs of characters none of which begins or closes anything. -/
namespace AuditLog

namespace Text

/-- A run is determined by the whole where a character of another sort follows it. -/
theorem run_append_inj {p : Char → Bool} {cs ds r s : List Char} (left : ∀ c ∈ cs, p c = true)
    (right : ∀ c ∈ ds, p c = true) (ends : ∀ c tail, r = c :: tail → p c = false)
    (stops : ∀ c tail, s = c :: tail → p c = false) (same : cs ++ r = ds ++ s) :
    cs = ds ∧ r = s := by
  have none (rest : List Char) (stop : ∀ c tail, rest = c :: tail → p c = false) :
      rest.takeWhile p = [] := by
    cases rest with
    | nil => rfl
    | cons c tail => simp [stop c tail rfl]
  have front : cs = ds := by
    have taken := congrArg (List.takeWhile p) same
    rw [List.takeWhile_append_of_pos left, List.takeWhile_append_of_pos right, none r ends,
      none s stops] at taken
    simpa using taken
  refine ⟨front, ?_⟩
  rw [front] at same
  exact List.append_cancel_left same

theorem append_stop_inj {stop : Char} {cs ds r s : List Char} (left : stop ∉ cs) (right : stop ∉ ds)
    (same : cs ++ stop :: r = ds ++ stop :: s) : cs = ds ∧ r = s := by
  have other {cs : List Char} (absent : stop ∉ cs) : ∀ c ∈ cs, (c != stop) = true := by
    intro c member
    rw [bne_iff_ne]
    rintro rfl
    exact absent member
  have ends (rest : List Char) : ∀ c tail, stop :: rest = c :: tail → (c != stop) = false := by
    intro c tail equal
    cases equal
    exact bne_self_eq_false stop
  obtain ⟨front, rest⟩ := run_append_inj (other left) (other right) (ends r) (ends s) same
  exact ⟨front, (List.cons.inj rest).2⟩

theorem hexDigits_small {n : Nat} (small : n < 16) : hexDigits n = [Nat.digitChar n] :=
  Nat.toDigits_of_lt_base small

theorem hexDigits_large {n : Nat} (large : 16 ≤ n) :
    hexDigits n = hexDigits (n / 16) ++ [Nat.digitChar (n % 16)] :=
  Nat.toDigits_of_base_le (by decide) large

theorem hexValue?_digitChar : ∀ n < 16, hexValue? (Nat.digitChar n) = some n := by decide

theorem digitChar_ne_brace : ∀ n < 16, Nat.digitChar n ≠ '\x7d' := by decide

theorem natOfHex?_hexDigits (n : Nat) : natOfHex? (hexDigits n) = some n := by
  have present : (hexDigits n).isEmpty = false := by
    rw [List.isEmpty_eq_false_iff]
    exact Nat.toDigits_ne_nil
  rw [natOfHex?, present]
  simp only [Bool.false_eq_true, if_false]
  clear present
  induction n using Nat.strongRecOn with
  | ind n ih =>
    by_cases small : n < 16
    · simp [hexDigits_small small, hexValue?_digitChar n small]
    · have last := hexValue?_digitChar (n % 16) (by omega)
      rw [hexDigits_large (by omega), List.foldl_append, ih (n / 16) (by omega)]
      simp only [List.foldl_cons, List.foldl_nil, last, bind, Option.bind, pure]
      congr 1
      omega

theorem brace_notMem_hexDigits (n : Nat) : '\x7d' ∉ hexDigits n := by
  induction n using Nat.strongRecOn with
  | ind n ih =>
    by_cases small : n < 16
    · rw [hexDigits_small small, List.mem_singleton]
      exact (digitChar_ne_brace n small).symm
    · rw [hexDigits_large (by omega), List.mem_append, List.mem_singleton, not_or]
      exact ⟨ih (n / 16) (by omega), (digitChar_ne_brace _ (by omega)).symm⟩

/-- The first character of quoted text, and what follows it. -/
def character? : List Char → Option (Char × List Char)
  | '\\' :: 'n' :: rest => some ('\n', rest)
  | '\\' :: 'r' :: rest => some ('\r', rest)
  | '\\' :: 't' :: rest => some ('\t', rest)
  | '\\' :: '0' :: rest => some ('\x00', rest)
  | '\\' :: '"' :: rest => some ('"', rest)
  | '\\' :: '\\' :: rest => some ('\\', rest)
  | '\\' :: 'u' :: '\x7b' :: rest =>
    (natOfHex? (rest.takeWhile (· != '\x7d'))).map fun n =>
      (Char.ofNat n, (rest.dropWhile (· != '\x7d')).drop 1)
  | c :: rest => some (c, rest)
  | [] => none

theorem character?_plain {c : Char} (slash : c ≠ '\\') (rest : List Char) :
    character? (c :: rest) = some (c, rest) := by
  unfold character?
  split <;> simp_all

theorem character?_quotedChar (c : Char) (rest : List Char) :
    character? (quotedChar c ++ rest) = some (c, rest) := by
  unfold quotedChar
  split
  next quote => rw [beq_iff_eq.mp quote]; rfl
  split
  next slash => rw [beq_iff_eq.mp slash]; rfl
  next slash =>
  split
  next line => rw [beq_iff_eq.mp line]; rfl
  split
  next ret => rw [beq_iff_eq.mp ret]; rfl
  split
  next tab => rw [beq_iff_eq.mp tab]; rfl
  split
  next zero => rw [beq_iff_eq.mp zero]; rfl
  split
  · have digits := brace_notMem_hexDigits c.toNat
    have run (x : Char) (member : x ∈ hexDigits c.toNat) : (x != '\x7d') = true := by
      rw [bne_iff_ne]
      rintro rfl
      exact digits member
    simp only [List.cons_append, List.nil_append, List.append_assoc, character?]
    rw [List.takeWhile_append_of_pos run, List.dropWhile_append_of_pos run]
    simp [natOfHex?_hexDigits]
  · exact character?_plain (by simpa using slash) rest

theorem quotedChar_ne_quote (c : Char) (rest tail : List Char) :
    quotedChar c ++ rest ≠ '"' :: tail := by
  intro same
  have read := character?_quotedChar c rest
  rw [same, character?_plain (by decide)] at read
  cases read
  cases same

theorem quotedChars_append_inj {cs ds r s : List Char}
    (same : cs.flatMap quotedChar ++ '"' :: r = ds.flatMap quotedChar ++ '"' :: s) :
    cs = ds ∧ r = s := by
  induction cs generalizing ds with
  | nil =>
    cases ds with
    | nil => exact ⟨rfl, (List.cons.inj same).2⟩
    | cons d ds =>
      rw [List.flatMap_cons, List.append_assoc] at same
      exact absurd same.symm (quotedChar_ne_quote d _ _)
  | cons c cs ih =>
    rw [List.flatMap_cons, List.append_assoc] at same
    cases ds with
    | nil => exact absurd same (quotedChar_ne_quote c _ _)
    | cons d ds =>
      rw [List.flatMap_cons, List.append_assoc] at same
      have read := character?_quotedChar c (cs.flatMap quotedChar ++ '"' :: r)
      rw [same, character?_quotedChar] at read
      obtain ⟨head, tail⟩ := Prod.mk.inj (Option.some.inj read)
      obtain ⟨rest, after⟩ := ih tail.symm
      exact ⟨head ▸ rest ▸ rfl, after⟩

theorem quoted_append_inj {s t : String} {r rest : List Char}
    (same : quoted s ++ r = quoted t ++ rest) : s = t ∧ r = rest := by
  simp only [quoted, List.cons_append, List.append_assoc, List.nil_append] at same
  obtain ⟨chars, after⟩ := quotedChars_append_inj (List.cons.inj same).2
  exact ⟨String.toList_inj.mp chars, after⟩

theorem decimal_ne_minus (m n : Nat) : decimal m ≠ '-' :: decimal n := by
  intro same
  have digit := decimal_digits m '-' (by simp [same])
  cases digit

theorem signed_injective {i j : Int} (same : signed i = signed j) : i = j := by
  have value {m n : Nat} (written : decimal m = decimal n) : m = n := by
    rw [← decimalValue_decimal m, written, decimalValue_decimal]
  unfold signed at same
  split at same
  next left =>
    split at same
    next right =>
      have abs := value (List.cons.inj same).2
      omega
    next => exact absurd same.symm (decimal_ne_minus _ _)
  next left =>
    split at same
    next => exact absurd same (decimal_ne_minus _ _)
    next right =>
      have abs := value same
      omega

/-- The characters that begin or close a text, an instant, an array or a document. -/
def isMark (c : Char) : Bool := [',', ']', '\x7d', '"', 'I', '[', '\x7b'].contains c

/-- Words and numbers: no character begins or closes anything. -/
def Unmarked (cs : List Char) : Prop := ∀ c ∈ cs, isMark c = false

instance (cs : List Char) : Decidable (Unmarked cs) := List.decidableBAll _ cs

theorem Unmarked.append {cs ds : List Char} (front : Unmarked cs) (back : Unmarked ds) :
    Unmarked (cs ++ ds) := List.forall_mem_append.mpr ⟨front, back⟩

theorem Unmarked.cons {c : Char} {cs : List Char} (first : isMark c = false) (rest : Unmarked cs) :
    Unmarked (c :: cs) := List.forall_mem_cons.mpr ⟨first, rest⟩

theorem unmarked_digits {cs : List Char} (digits : Digits cs) : Unmarked cs := by
  intro c member
  have digit := digits c member
  cases mark : isMark c with
  | false => rfl
  | true =>
    have known : c ∈ [',', ']', '\x7d', '"', 'I', '[', '\x7b'] := by simpa [isMark] using mark
    have none : [',', ']', '\x7d', '"', 'I', '[', '\x7b'].all (!isDigit ·) = true := by decide
    have no_digit := List.all_eq_true.mp none c known
    rw [digit] at no_digit
    cases no_digit

theorem unmarked_signed (i : Int) : Unmarked (signed i) := by
  unfold signed
  split
  · exact .cons rfl (unmarked_digits (decimal_digits _))
  · exact unmarked_digits (decimal_digits _)

theorem signed_ne_nil (i : Int) : signed i ≠ [] := by
  unfold signed
  split
  · exact List.cons_ne_nil _ _
  · exact decimal_ne_nil _

theorem signed_head {i : Int} {c : Char} {tail : List Char} (written : signed i = c :: tail) :
    c = '-' ∨ isDigit c = true := by
  unfold signed at written
  split at written
  · exact .inl (List.cons.inj written).1.symm
  · exact .inr (decimal_digits i.natAbs c (by simp [written]))

theorem unmarked_append_inj {cs ds r s : List Char} (left : Unmarked cs) (right : Unmarked ds)
    (closes : Json.Closes r) (closes' : Json.Closes s) (same : cs ++ r = ds ++ s) :
    cs = ds ∧ r = s := by
  have inside {cs : List Char} (unmarked : Unmarked cs) : ∀ c ∈ cs, (!isMark c) = true := by
    intro c member
    rw [unmarked c member, Bool.not_false]
  have outside {r : List Char} (closes : Json.Closes r) :
      ∀ c tail, r = c :: tail → (!isMark c) = false := by
    intro c tail equal
    rcases closes c tail equal with rfl | rfl | rfl <;> rfl
  exact run_append_inj (inside left) (inside right) (outside closes) (outside closes') same

end Text

namespace Timestamp

theorem quote_notMem_display (t : Instant) : '"' ∉ display t := by
  have plain : '"' ∉ stored t := by
    intro member
    have escaped := Value.plain_timestamp t '"' member
    cases escaped
  have zone : '"' ∉ "+00:00".toList := by decide
  rw [display, List.mem_append, not_or]
  exact ⟨fun member => plain (List.mem_append_left _ member), zone⟩

theorem display_eq_iff {t u : Instant} : display t = display u ↔ t.reread = u.reread := by
  constructor
  · intro same
    have body : stored t = stored u := congrArg (· ++ ['Z']) (List.append_cancel_right same)
    have read := read?_stored t
    rw [body, read?_stored] at read
    exact (Option.some.inj read).symm
  · intro same
    rw [display, display, ← utcText_reread t, ← utcText_reread u, same]

end Timestamp

namespace Double

open Text

theorem unmarked_positional {x : Double} {d : Decimal} (ok : d.For x) :
    Unmarked d.positional ∧ d.positional ≠ [] := by
  have zeros (n : Nat) : Unmarked (zeros n) := unmarked_digits (zeros_digits n)
  have part {cs : List Char} (inside : cs.Sublist d.digits) : Unmarked cs :=
    unmarked_digits (ok.digits.sublist inside)
  unfold Decimal.positional
  simp only
  split
  · exact ⟨(part (.refl _)).append (zeros _), by simp [ok.present]⟩
  split
  · exact ⟨(part (List.take_sublist _ _)).append (.cons rfl (part (List.drop_sublist _ _))), by simp⟩
  · exact ⟨(Unmarked.cons rfl (.cons rfl (zeros _))).append (part (.refl _)), by simp⟩

theorem unmarked_display (x : Double) : Unmarked x.display ∧ x.display ≠ [] := by
  have signed {cs : List Char} (unmarked : Unmarked cs ∧ cs ≠ []) :
      Unmarked (x.withSign cs) ∧ x.withSign cs ≠ [] := by
    unfold withSign
    split
    · exact ⟨.cons rfl unmarked.1, List.cons_ne_nil _ _⟩
    · exact unmarked
  unfold display
  split
  · exact ⟨by decide, by decide⟩
  split
  · exact signed ⟨by decide, by decide⟩
  split
  · exact signed ⟨by decide, by decide⟩
  next nonzero =>
    apply signed
    exact unmarked_positional (shortest_for .up (Bool.eq_false_of_not_eq_true nonzero))

end Double

end AuditLog
