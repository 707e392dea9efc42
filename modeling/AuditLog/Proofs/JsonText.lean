import AuditLog.Json
import AuditLog.Proofs.Numerals
import Mathlib.Tactic.Positivity

/-! Reading back what is written as JSON: strings with their escapes, integers, words, and
sequences of items. Every lemma leaves an arbitrary rest, so that the lemmas compose. -/
namespace AuditLog.Json
open Text

theorem skip_dark {c : Char} (dark : isBlank c = false) (rest : List Char) :
    skip (c :: rest) = c :: rest := by
  simp [skip, dark]

theorem codePoint?_control : ∀ n < 32,
    ∃ a b c d, paddedHex 4 n = [a, b, c, d] ∧ natOfHex? [a, b, c, d] = some n := by
  have written : ∀ n < 32, (paddedHex 4 n).length = 4 ∧ natOfHex? (paddedHex 4 n) = some n := by
    decide
  intro n small
  obtain ⟨length, value⟩ := written n small
  match shape : paddedHex 4 n, length with
  | [a, b, c, d], _ => exact ⟨a, b, c, d, rfl, shape ▸ value⟩

theorem escape?_control {n : Nat} (small : n < 32) (rest : List Char) :
    escape? ('u' :: paddedHex 4 n ++ rest) = some (Char.ofNat n, rest) := by
  obtain ⟨a, b, c, d, written, value⟩ := codePoint?_control n small
  have low : isLow n = false := by simp [isLow]; omega
  have high : isHigh n = false := by simp [isHigh]; omega
  simp [written, escape?, codePoint?, unit?, value, low, high]

theorem characters?_escape {c : Char} {escape rest : List Char}
    (read : escape? escape = some (c, rest)) (steps : Nat) :
    characters? (steps + 1) ('\\' :: escape) =
      (characters? steps rest).map fun (more, tail) => (c :: more, tail) := by
  simp only [characters?, read, bind, Option.bind_some]
  cases characters? steps rest <;> rfl

theorem characters?_plain {c : Char} (quote : c ≠ '"') (slash : c ≠ '\\') (light : ¬ c.toNat < 32)
    (steps : Nat) (rest : List Char) :
    characters? (steps + 1) (c :: rest) =
      (characters? steps rest).map fun (more, tail) => (c :: more, tail) := by
  rw [characters?]
  · simp only [if_neg light]
    cases characters? steps rest <;> rfl
  · exact quote
  · exact slash

theorem characters?_escapedChar (c : Char) (steps : Nat) (rest : List Char) :
    characters? (steps + 1) (escapedChar c ++ rest) =
      (characters? steps rest).map fun (more, tail) => (c :: more, tail) := by
  unfold escapedChar
  -- seven characters have short escapes; the other controls are written by code point
  by_cases quote : c = '"'
  · subst quote; exact characters?_escape rfl steps
  by_cases slash : c = '\\'
  · subst slash; exact characters?_escape rfl steps
  by_cases backspace : c = '\x08'
  · subst backspace; exact characters?_escape rfl steps
  by_cases feed : c = '\x0c'
  · subst feed; exact characters?_escape rfl steps
  by_cases newline : c = '\n'
  · subst newline; exact characters?_escape rfl steps
  by_cases carriage : c = '\r'
  · subst carriage; exact characters?_escape rfl steps
  by_cases tab : c = '\t'
  · subst tab; exact characters?_escape rfl steps
  simp only [beq_iff_eq, quote, slash, backspace, feed, newline, carriage, tab, if_false]
  split
  next control =>
    have read := escape?_control (n := c.toNat) (by omega) rest
    rw [Char.ofNat_toNat] at read
    exact characters?_escape read steps
  next light => exact characters?_plain quote slash (by omega) steps rest

theorem escapedChar_ne_nil (c : Char) : escapedChar c ≠ [] := by
  unfold escapedChar
  repeat' split
  all_goals simp

theorem characters?_escaped (cs rest : List Char) (steps : Nat) (enough : cs.length < steps) :
    characters? steps (cs.flatMap escapedChar ++ '"' :: rest) = some (cs, rest) := by
  induction cs generalizing steps with
  | nil =>
    obtain ⟨steps, rfl⟩ := Nat.exists_eq_succ_of_ne_zero (Nat.ne_of_gt enough)
    rfl
  | cons c cs ih =>
    obtain ⟨steps, rfl⟩ := Nat.exists_eq_succ_of_ne_zero (Nat.ne_of_gt (Nat.zero_lt_of_lt enough))
    rw [List.length_cons] at enough
    rw [List.flatMap_cons, List.append_assoc, characters?_escapedChar, ih steps (by omega)]
    rfl

theorem length_escaped (cs : List Char) : cs.length ≤ (cs.flatMap escapedChar).length := by
  induction cs with
  | nil => simp
  | cons c cs ih =>
    have here := List.length_pos_iff.mpr (escapedChar_ne_nil c)
    rw [List.flatMap_cons, List.length_append, List.length_cons]
    omega

theorem string?_quoted (s : String) (rest : List Char) :
    string? (s.toList.flatMap escapedChar ++ '"' :: rest) = some (s, rest) := by
  have length := length_escaped s.toList
  rw [string?, characters?_escaped _ _ _ (by rw [List.length_append]; omega)]
  simp

theorem quoted_eq (s : String) (rest : List Char) :
    quoted s ++ rest = '"' :: (s.toList.flatMap escapedChar ++ '"' :: rest) := by
  simp [quoted]

/-- No character needs an escape. -/
def Plain (cs : List Char) : Prop := ∀ c ∈ cs, escapedChar c = [c]

theorem Plain.escaped {cs : List Char} (plain : Plain cs) : cs.flatMap escapedChar = cs := by
  induction cs with
  | nil => rfl
  | cons c rest ih =>
    have later : Plain rest := by
      intro d member
      apply plain
      simp [member]
    rw [List.flatMap_cons, plain c (by simp), ih later]
    rfl

theorem Plain.append {cs ds : List Char} (front : Plain cs) (back : Plain ds) :
    Plain (cs ++ ds) := by
  intro c member
  rcases List.mem_append.mp member with h | h
  · exact front c h
  · exact back c h

theorem Plain.cons {c : Char} {cs : List Char} (first : escapedChar c = [c]) (rest : Plain cs) :
    Plain (c :: cs) := by
  intro d member
  rcases List.mem_cons.mp member with rfl | h
  · exact first
  · exact rest d h

theorem plain_digits {cs : List Char} (digits : Digits cs) : Plain cs := by
  intro c member
  have digit := digits c member
  have range := (isDigit_iff c).mp digit
  have light : ¬ c.toNat < 32 := by omega
  have other (d : Char) (mark : isDigit d = false) : (c == d) = false :=
    beq_eq_false_iff_ne.mpr (digit_ne digit mark)
  simp [escapedChar, light, other '"' rfl, other '\\' rfl, other '\x08' rfl, other '\x0c' rfl,
    other '\n' rfl, other '\r' rfl, other '\t' rfl]

/-- What may follow a value: nothing, a comma, or a closing bracket. -/
def Closes (tail : List Char) : Prop :=
  ∀ c rest, tail = c :: rest → c = ',' ∨ c = ']' ∨ c = '\x7d'

theorem closes_nil : Closes [] := by
  intro c rest equal
  cases equal

theorem closes_cons {c : Char} (mark : c = ',' ∨ c = ']' ∨ c = '\x7d') (rest : List Char) :
    Closes (c :: rest) := by
  intro d tail equal
  cases equal
  exact mark

theorem Closes.skip {c : Char} {rest : List Char} (closes : Closes (c :: rest)) :
    skip (c :: rest) = c :: rest := by
  rcases closes c rest rfl with rfl | rfl | rfl <;> rfl

theorem Closes.endsDigits {tail : List Char} (closes : Closes tail) : EndsDigits tail := by
  intro c rest equal
  rcases closes c rest equal with rfl | rfl | rfl <;> rfl

theorem Closes.no_point {tail : List Char} (closes : Closes tail) : tail.head? ≠ some '.' := by
  cases tail with
  | nil => simp
  | cons c rest => rcases closes c rest rfl with rfl | rfl | rfl <;> simp

theorem le_ofDigitChars (digits : List Char) (total : Nat) :
    total ≤ Nat.ofDigitChars 10 digits total := by
  rw [Nat.ofDigitChars_eq_ofDigitChars_zero]
  have scale : total ≤ 10 ^ digits.length * total := Nat.le_mul_of_pos_left _ (by positivity)
  omega

theorem gather_fits (digits : List Char) (total : Nat)
    (fits : Nat.ofDigitChars 10 digits total < 2 ^ 64) :
    gather total digits = (Nat.ofDigitChars 10 digits total, digits.length) := by
  induction digits generalizing total with
  | nil => simp [gather]
  | cons c rest ih =>
    rw [Nat.ofDigitChars_cons] at fits ⊢
    have grows := le_ofDigitChars rest (10 * total + (c.toNat - '0'.toNat))
    simp only [gather, digitValue, ih _ fits]
    rw [if_pos (by omega), List.length_cons]

def pointed (fraction : List Char) : List Char :=
  if fraction.isEmpty then [] else '.' :: fraction

theorem fractionDigits?_pointed {fraction rest : List Char} (digits : Digits fraction)
    (ends : EndsDigits rest) (point : rest.head? ≠ some '.') :
    fractionDigits? (pointed fraction ++ rest) = some (fraction, rest) := by
  cases fraction with
  | nil =>
    simp only [pointed, List.isEmpty_nil, if_true, List.nil_append]
    unfold fractionDigits?
    split
    · simp at point
    · rfl
  | cons c more =>
    have run := takeWhile_digits digits ends
    rw [List.cons_append] at run
    simp [pointed, fractionDigits?, run]

theorem exponent?_closes {rest : List Char} (closes : Closes rest) :
    exponent? rest = some (0, rest) := by
  cases rest with
  | nil => rfl
  | cons c tail => rcases closes c tail rfl with rfl | rfl | rfl <;> rfl

theorem exponent?_written (power : Int) {rest : List Char} (closes : Closes rest) :
    exponent? ('e' :: (if power < 0 then '-' else '+') :: decimal power.natAbs ++ rest) =
      some (power, rest) := by
  have run := takeWhile_digits (decimal_digits power.natAbs) closes.endsDigits
  have value := decimalValue_decimal power.natAbs
  have present : (decimal power.natAbs).isEmpty = false := by simp [decimal_ne_nil]
  have drop : (decimal power.natAbs ++ rest).drop (decimal power.natAbs).length = rest := by simp
  split
  next negative =>
    have size : (power.natAbs : Int) = -power := by omega
    simp only [exponent?, List.cons_append, run, present, value, drop, size]
    simp
  next positive =>
    have size : (power.natAbs : Int) = power := by omega
    simp only [exponent?, List.cons_append, run, present, value, drop, size]
    simp

structure Whole (whole : List Char) : Prop where
  digits : Digits whole
  present : whole ≠ []
  leading : whole.length = 1 ∨ whole.head? ≠ some '0'

theorem Whole.accepted {whole : List Char} (ok : Whole whole) :
    (whole.isEmpty || (1 < whole.length && whole.head? == some '0')) = false := by
  have present := ok.present
  rcases ok.leading with single | nonzero
  · simp [single, present]
  · simp [nonzero, present]

theorem Whole.zero : Whole ['0'] := ⟨zero_digits, by simp, .inl rfl⟩

theorem whole_decimal (n : Nat) : Whole (decimal n) := by
  refine ⟨decimal_digits n, decimal_ne_nil n, ?_⟩
  rcases Nat.eq_zero_or_pos n with rfl | positive
  · exact .inl rfl
  · right
    intro zero
    cases shape : decimal n with
    | nil => exact decimal_ne_nil n shape
    | cons c tail =>
      rw [shape] at zero
      exact decimal_head n positive c tail shape (by simpa using zero)

theorem pointed_ends (fraction : List Char) {rest : List Char} (ends : EndsDigits rest) :
    EndsDigits (pointed fraction ++ rest) := by
  unfold pointed
  split
  · exact ends
  · exact endsDigits_cons rfl _

/-- The parts of a number with a fraction or an exponent, all of whose digits fit a word. -/
theorem number?_scaled (negative : Bool) (exponent : List Char) {whole fraction rest : List Char}
    {power : Int} (ok : Whole whole) (digits : Digits fraction) (closes : Closes rest)
    (letter : ∀ c tail, exponent = c :: tail → c = 'e')
    (read : exponent? (exponent ++ rest) = some (power, rest))
    (real : fraction ≠ [] ∨ exponent ≠ [])
    (fits : decimalValue (whole ++ fraction) < 2 ^ 64) :
    number? negative (whole ++ (pointed fraction ++ (exponent ++ rest))) =
      (scaled? negative (decimalValue (whole ++ fraction)) (power - fraction.length)).map
        fun x => (.double x, rest) := by
  have ends : EndsDigits (exponent ++ rest) ∧ (exponent ++ rest).head? ≠ some '.' := by
    cases exponent with
    | nil => exact ⟨closes.endsDigits, closes.no_point⟩
    | cons c tail =>
      obtain rfl := letter c tail rfl
      exact ⟨endsDigits_cons rfl _, by simp⟩
  have run := takeWhile_digits ok.digits (pointed_ends fraction ends.1)
  have longer : (pointed fraction ++ (exponent ++ rest)).length ≠ rest.length := by
    simp only [List.length_append, pointed]
    rcases real with digit | power
    · rw [if_neg (by simpa using digit), List.length_cons]
      omega
    · have letters := List.length_pos_iff.mpr power
      omega
  rw [decimalValue, Nat.ofDigitChars_append] at fits ⊢
  have wholeFits := Nat.lt_of_le_of_lt (le_ofDigitChars fraction _) fits
  simp only [number?, run, ok.accepted, Bool.false_eq_true, if_false, List.drop_left, bind,
    Option.bind_some, fractionDigits?_pointed digits ends.1 ends.2, read,
    gather_fits whole 0 wholeFits, gather_fits fraction _ fits, longer, decide_false,
    Bool.false_and, Nat.sub_self]
  simp only [Nat.cast_zero, zero_sub, neg_add_eq_sub]
  cases scaled? negative _ _ <;> rfl

theorem value?_digits (depth : Nat) {run : List Char} (digits : Digits run) (present : run ≠ [])
    (rest : List Char) : value? depth (run ++ rest) = number? false (run ++ rest) := by
  obtain ⟨c, tail, rfl⟩ := List.exists_cons_of_ne_nil present
  have digit := digits c (by simp)
  have other (d : Char) (mark : isDigit d = false) : (c == d) = false :=
    beq_eq_false_iff_ne.mpr (digit_ne digit mark)
  have dark : isBlank c = false := by
    simp only [isBlank, other ' ' rfl, other '\t' rfl, other '\n' rfl, other '\r' rfl, Bool.or_self]
  cases depth <;>
    simp only [value?, List.cons_append, skip_dark dark, other '"' rfl, other '[' rfl,
      other '\x7b' rfl, other '-' rfl, digit, Bool.false_eq_true, if_false, if_true]

theorem number?_whole (negative : Bool) {n : Nat} (fits : n < 2 ^ 64)
    (range : negative = true → 1 ≤ n ∧ n ≤ 2 ^ 63) {rest : List Char} (closes : Closes rest) :
    number? negative (decimal n ++ rest) = some (.int (if negative then -n else n), rest) := by
  have run := takeWhile_digits (decimal_digits n) closes.endsDigits
  have value : Nat.ofDigitChars 10 (decimal n) 0 = n := decimalValue_decimal n
  have fraction := fractionDigits?_pointed no_digits closes.endsDigits closes.no_point
  simp only [pointed, List.isEmpty_nil, if_true, List.nil_append] at fraction
  have gathered := gather_fits (decimal n) 0 (by omega)
  simp only [number?, run, (whole_decimal n).accepted, Bool.false_eq_true, if_false,
    List.drop_left, bind, Option.bind_some, fraction, exponent?_closes closes, gathered, value,
    Nat.sub_self, Nat.cast_zero, decide_true, Bool.true_and, if_true]
  cases negative with
  | false => rfl
  | true =>
    have bounds := range rfl
    simp [bounds.1, show n ≤ 9223372036854775808 by omega]

theorem value?_signed (depth : Nat) {i : Int} (low : -2 ^ 63 ≤ i) (high : i < 2 ^ 63)
    {rest : List Char} (closes : Closes rest) :
    value? depth (signed i ++ rest) = some (.int i, rest) := by
  unfold signed
  split
  next negative =>
    have read := number?_whole true (n := i.natAbs) (by omega) (by omega) closes
    have size : -(i.natAbs : Int) = i := by omega
    rw [if_pos rfl, size] at read
    rw [← read]
    cases depth <;> rfl
  next positive =>
    have read := number?_whole false (n := i.natAbs) (by omega) (by simp) closes
    have size : (i.natAbs : Int) = i := by omega
    rw [if_neg Bool.false_ne_true, size] at read
    rw [← read]
    exact value?_digits depth (decimal_digits _) (decimal_ne_nil _) rest

theorem value?_quoted (depth : Nat) (s : String) (rest : List Char) :
    value? depth (quoted s ++ rest) = some (.text s, rest) := by
  have read : value? depth (quoted s ++ rest) =
      (string? (s.toList.flatMap escapedChar ++ '"' :: rest)).map
        fun read => (.text read.1, read.2) := by
    rw [quoted_eq]
    cases depth <;> rfl
  rw [read, string?_quoted]
  rfl

theorem value?_null (depth : Nat) (rest : List Char) :
    value? depth ("null".toList ++ rest) = some (.null, rest) := by
  cases depth <;> rfl

theorem value?_bool (depth : Nat) (b : Bool) (rest : List Char) :
    value? depth ((if b then "true" else "false").toList ++ rest) = some (.bool b, rest) := by
  cases b <;> cases depth <;> rfl

theorem member?_quoted (value : List Char → Option (Json × List Char)) (name : String)
    (cs : List Char) :
    member? value (quoted name ++ ':' :: cs) =
      (value cs).map fun (v, rest) => ((name, v), rest) := by
  have colon : skip (':' :: cs) = ':' :: cs := skip_dark rfl cs
  rw [quoted_eq]
  simp only [member?, skip_dark (c := '"') rfl, string?_quoted, bind, Option.bind_some, colon]
  cases value cs <;> rfl

section Sequences

variable {α β : Type} {item : List Char → Option (α × List Char)} {close : Char}
variable {text : β → List Char} {value : β → Option α} {xs : List β}

/-- Items that read back one by one read back as a sequence up to its closing bracket. -/
theorem sequence?_joined
    (each : ∀ x ∈ xs, ∀ tail, Closes tail → item (text x ++ tail) = (value x).map (·, tail))
    {rest : List Char} (closes : Closes (close :: rest)) (comma : close ≠ ',') (present : xs ≠ [])
    {steps : Nat} (enough : xs.length ≤ steps) :
    sequence? item close steps (joinWith [','] (xs.map text) ++ close :: rest) =
      (xs.mapM value).map (·, rest) := by
  induction xs generalizing steps with
  | nil => exact absurd rfl present
  | cons x others ih =>
    obtain ⟨steps, rfl⟩ := Nat.exists_eq_succ_of_ne_zero (Nat.ne_of_gt (Nat.zero_lt_of_lt enough))
    have here := each x (by simp)
    cases others with
    | nil =>
      simp only [List.map_cons, List.map_nil, joinWith, sequence?, here _ closes,
        List.mapM_cons, List.mapM_nil]
      cases value x with
      | none => rfl
      | some v => simp [closes.skip]
    | cons y more =>
      have left : (y :: more).length ≤ steps := by simpa using enough
      have still : ∀ z ∈ y :: more, ∀ tail, Closes tail →
          item (text z ++ tail) = (value z).map (·, tail) := by
        intro z member
        apply each
        exact List.mem_cons_of_mem _ member
      have after := ih still (by simp) left
      simp only [List.map_cons, joinWith, List.append_assoc, List.cons_append, List.nil_append,
        sequence?, here (',' :: _) (closes_cons (.inl rfl) _)] at after ⊢
      rw [List.mapM_cons]
      cases value x with
      | none => rfl
      | some v =>
        have blank (cs : List Char) : skip (',' :: cs) = ',' :: cs := skip_dark rfl cs
        have other : (',' == close) = false := by simpa using comma.symm
        simp only [bind, Option.map_some, Option.bind_some, blank, other, after,
          Bool.false_eq_true, if_false, beq_self_eq_true, if_true]
        cases (y :: more).mapM value <;> rfl

theorem length_joined (pieces : List (List Char)) :
    pieces.length ≤ (joinWith [','] pieces).length + 1 := by
  induction pieces with
  | nil => simp
  | cons piece others ih =>
    cases others with
    | nil => simp
    | cons second more =>
      simp only [joinWith, List.length_append, List.length_cons, List.length_nil] at ih ⊢
      omega

theorem enclosed?_joined (close : Char)
    (each : ∀ x ∈ xs, ∀ tail, Closes tail → item (text x ++ tail) = (value x).map (·, tail))
    (opens : ∀ x ∈ xs, ∃ c tail, text x = c :: tail ∧ isBlank c = false ∧ c ≠ close)
    {rest : List Char} (closes : Closes (close :: rest)) (comma : close ≠ ',') :
    enclosed? item close (joinWith [','] (xs.map text) ++ close :: rest) =
      (xs.mapM value).map (·, rest) := by
  cases xs with
  | nil =>
    simp [enclosed?, joinWith, closes.skip]
  | cons x others =>
    have length := length_joined ((x :: others).map text)
    have enough : (x :: others).length ≤
        (joinWith [','] ((x :: others).map text) ++ close :: rest).length := by
      simp only [List.length_append, List.length_cons, List.length_map] at length ⊢
      omega
    have read := sequence?_joined each closes comma (by simp) enough
    rw [← read]
    obtain ⟨c, tail, begins, dark, other⟩ := opens x (by simp)
    obtain ⟨more, shape⟩ : ∃ more, joinWith [','] ((x :: others).map text) = c :: more := by
      cases others with
      | nil => exact ⟨tail, by simp [joinWith, begins]⟩
      | cons y more =>
        refine ⟨tail ++ ([','] ++ joinWith [','] ((y :: more).map text)), ?_⟩
        simp [joinWith, begins]
    have different : (c == close) = false := by simpa using other
    rw [shape, List.cons_append]
    simp only [enclosed?, skip_dark dark, different, Bool.false_eq_true, if_false]

end Sequences

end AuditLog.Json
