import AuditLog.Proofs.Calendar
import AuditLog.Proofs.Numerals
import AuditLog.Time.Timestamp

/-! The stored text of an instant reads back as that instant, for every representable year, to
the nanosecond, leap seconds at the end of a minute included; any other leap second is written as
the second after it. Each part is read off the front of the text. -/
namespace AuditLog

namespace Instant

/-- No leap second, or one that ends its minute. -/
def Regular (t : Instant) : Prop := t.nanos < 1000000000 ∨ t.seconds % 60 = 59

instance (t : Instant) : Decidable t.Regular := inferInstanceAs (Decidable (_ ∨ _))

/-- The regular instant that has the same text. -/
def reread (t : Instant) : Instant :=
  if irregular : 1000000000 ≤ t.nanos ∧ t.seconds % 60 ≠ 59 then
    have first := t.first
    have last := t.last
    have nanos_lt := t.nanos_lt
    ⟨t.seconds + 1, t.nanos - 1000000000, by omega, by omega, by omega⟩
  else t

theorem reread_cases (t : Instant) : (t.Regular ∧ t.reread = t) ∨
    (1000000000 ≤ t.nanos ∧ t.seconds % 60 ≠ 59 ∧
      t.reread.seconds = t.seconds + 1 ∧ t.reread.nanos = t.nanos - 1000000000) := by
  unfold reread Regular
  split
  next irregular => exact .inr ⟨irregular.1, irregular.2, rfl, rfl⟩
  next regular => exact .inl ⟨by omega, rfl⟩

theorem regular_reread (t : Instant) : t.reread.Regular := by
  rcases t.reread_cases with ⟨regular, same⟩ | ⟨leap, -, -, nanos⟩
  · rwa [same]
  · have nanos_lt := t.nanos_lt
    exact .inl (by omega)

theorem reread_eq_self {t : Instant} : t.reread = t ↔ t.Regular := by
  constructor
  · intro same
    rw [← same]
    exact t.regular_reread
  · intro regular
    rcases t.reread_cases with ⟨-, same⟩ | ⟨leap, inside, -⟩
    · exact same
    · unfold Regular at regular
      omega

@[simp] theorem reread_reread (t : Instant) : t.reread.reread = t.reread :=
  reread_eq_self.mpr t.regular_reread

/-- A leap second is as long after the epoch as the second that follows it. -/
@[simp] theorem micros_reread (t : Instant) : t.reread.micros = t.micros := by
  rcases t.reread_cases with ⟨-, same⟩ | ⟨leap, -, seconds, nanos⟩
  · rw [same]
  · unfold micros
    omega

end Instant

namespace Timestamp
open Text

theorem utcText_reread (t : Instant) : utcText t.reread = utcText t := by
  rcases t.reread_cases with ⟨-, same⟩ | ⟨leap, inside, seconds, nanos⟩
  · rw [same]
  · have nanos_lt := t.nanos_lt
    have day : (t.seconds + 1) / 86400 = t.seconds / 86400 := by omega
    have hour : ((t.seconds + 1) % 86400).toNat / 3600 = (t.seconds % 86400).toNat / 3600 := by omega
    have minute : ((t.seconds + 1) % 86400).toNat / 60 = (t.seconds % 86400).toNat / 60 := by omega
    have second : ((t.seconds + 1) % 86400).toNat % 60 + (t.nanos - 1000000000) / 1000000000 =
        (t.seconds % 86400).toNat % 60 + t.nanos / 1000000000 := by omega
    have fraction : (t.nanos - 1000000000) % 1000000000 = t.nanos % 1000000000 := by omega
    simp only [utcText, utcDate, utcClock, clockText, fractionText, seconds, nanos, day, hour, minute,
      second, fraction]

theorem digits?_run {most : Nat} {run rest : List Char} (digits : Digits run) (present : run ≠ [])
    (short : run.length ≤ most) (stops : run.length = most ∨ EndsDigits rest) :
    digits? most (run ++ rest) = some (run, rest) := by
  have taken : ((run ++ rest).take most).takeWhile isDigit = run := by
    rw [List.take_append, List.take_of_length_le short]
    rcases stops with full | ends
    · simpa [full] using takeWhile_digits digits endsDigits_nil
    · apply takeWhile_digits digits
      intro c tail equal
      cases rest with
      | nil => simp at equal
      | cons d others =>
        cases h : most - run.length with
        | zero => simp [h] at equal
        | succ k =>
          simp only [h, List.take_succ_cons, List.cons.injEq] at equal
          rw [← equal.1]
          exact ends d others rfl
  simp [digits?, taken, present]

theorem number?_padded {n : Nat} (small : n < 100) (rest : List Char) :
    number? 2 (padded 2 n ++ rest) = some (n, rest) := by
  have length := padded_length 2 n (by decide) small
  simp only [number?, trimStart_digits (padded_digits 2 n) (padded_ne_nil 2 n)]
  rw [digits?_run (padded_digits 2 n) (padded_ne_nil 2 n) (by omega) (.inl length)]
  simp [decimalValue_padded]

theorem mark?_cons {c : Char} (dark : isBlank c = false) (rest : List Char) :
    mark? c (c :: rest) = some rest := by
  simp [mark?, trimStart_of_head dark]

theorem year?_yearText (year : Int) (rest : List Char) :
    year? (yearText year ++ '-' :: rest) = some (year, '-' :: rest) := by
  have ends : EndsDigits ('-' :: rest) := endsDigits_cons rfl rest
  unfold yearText
  split
  next plain =>
    simp only [Bool.and_eq_true, decide_eq_true_eq] at plain
    have digits := padded_digits 4 year.toNat
    have present := padded_ne_nil 4 year.toNat
    have length := padded_length 4 year.toNat (by decide) (by omega)
    have run : digits? 4 (padded 4 year.toNat ++ '-' :: rest) =
        some (padded 4 year.toNat, '-' :: rest) :=
      digits?_run digits present (by omega) (.inl length)
    have value := decimalValue_padded 4 year.toNat
    generalize padded 4 year.toNat = written at *
    obtain ⟨c, tail, rfl⟩ := List.exists_cons_of_ne_nil present
    have digit := digits c (by simp)
    have minus : c ≠ '-' := digit_ne digit rfl
    have plus : c ≠ '+' := digit_ne digit rfl
    have dark := isBlank_digit digit
    simp only [year?, List.cons_append, trimStart_of_head dark] at run ⊢
    split
    next equal => exact absurd (List.cons.inj equal).1 minus
    next equal => exact absurd (List.cons.inj equal).1 plus
    next => simp [run, value]; omega
  next wide =>
    have run (written : List Char) (digits : Digits written) (present : written ≠ []) :
        digits? (written ++ '-' :: rest).length (written ++ '-' :: rest) =
          some (written, '-' :: rest) :=
      digits?_run digits present (by simp) (.inr ends)
    have read := run _ (padded_digits 4 year.natAbs) (padded_ne_nil 4 year.natAbs)
    split
    next negative =>
      have value : -(year.natAbs : Int) = year := by omega
      simp only [year?, List.cons_append, trimStart_of_head (c := '-') rfl, read,
        decimalValue_padded, Option.map_some, value]
    next positive =>
      have value : (year.natAbs : Int) = year := by omega
      simp only [year?, List.cons_append, trimStart_of_head (c := '+') rfl, read,
        decimalValue_padded, Option.map_some, value]

theorem fraction?_padded {width n : Nat} (positive : 0 < width) (short : width ≤ 9)
    (small : n < 10 ^ width) :
    fraction? (padded width n ++ ['Z']) = some (n * 10 ^ (9 - width), ['Z']) := by
  have length := padded_length width n positive small
  have ends : EndsDigits ['Z'] := endsDigits_cons rfl []
  rw [fraction?, digits?_run (padded_digits width n) (padded_ne_nil width n) (by omega) (.inr ends)]
  simp only [length, decimalValue_padded, bind, Option.bind]
  have rest := dropWhile_digits no_digits ends
  simp only [List.nil_append] at rest
  rw [rest]
  rfl

theorem fraction?_fractionText (nanos : Nat) :
    (fractionText nanos = [] ∧ nanos % 1000000000 = 0) ∨
      ∃ digits, fractionText nanos = '.' :: digits ∧
        fraction? (digits ++ ['Z']) = some (nanos % 1000000000, ['Z']) := by
  simp only [fractionText]
  have bound := Nat.mod_lt nanos (by decide : 0 < 1000000000)
  generalize nanos % 1000000000 = n at *
  split
  next zero => exact .inl ⟨rfl, zero⟩
  next nonzero =>
    right
    split
    next millis =>
      refine ⟨_, rfl, ?_⟩
      rw [fraction?_padded (by decide) (by decide) (by omega)]
      simp only [Option.some.injEq, Prod.mk.injEq, and_true]
      omega
    next =>
      split
      next micros =>
        refine ⟨_, rfl, ?_⟩
        rw [fraction?_padded (by decide) (by decide) (by omega)]
        simp only [Option.some.injEq, Prod.mk.injEq, and_true]
        omega
      next =>
        refine ⟨_, rfl, ?_⟩
        rw [fraction?_padded (by decide) (by decide) (by omega)]
        simp

theorem read?_parts (date : Date) (hour minute second nanos : Nat) (valid : date.isValid = true)
    (years : -262143 ≤ date.year ∧ date.year ≤ 262142) (small : date.month < 100 ∧ date.day < 100)
    (clock : hour ≤ 23 ∧ minute ≤ 59 ∧ second ≤ 60) :
    read? (String.ofList (dateText date ++ 'T' :: (padded 2 hour ++ ':' :: padded 2 minute ++
        ':' :: padded 2 second) ++ fractionText nanos ++ ['Z'])) =
      Instant.of? (date.toDays * 86400 + (hour * 3600 + minute * 60 + min second 59 : Nat))
        (nanos % 1000000000 + if second = 60 then 1000000000 else 0) := by
  have hyphen (rest : List Char) : mark? '-' ('-' :: rest) = some rest := mark?_cons rfl rest
  have colon (rest : List Char) : mark? ':' (':' :: rest) = some rest := mark?_cons rfl rest
  have layout : dateText date ++ 'T' :: (padded 2 hour ++ ':' :: padded 2 minute ++
      ':' :: padded 2 second) ++ fractionText nanos ++ ['Z'] =
        yearText date.year ++ '-' :: (padded 2 date.month ++ '-' :: (padded 2 date.day ++
          'T' :: (padded 2 hour ++ ':' :: (padded 2 minute ++ ':' :: (padded 2 second ++
            (fractionText nanos ++ ['Z'])))))) := by
    simp only [dateText, List.append_assoc, List.cons_append]
  have letter : (('T' : Char) == 'T' || ('T' : Char) == 't' || ('T' : Char) == ' ') = true := rfl
  have accepted : ¬ (!(date.isValid && decide (-262143 ≤ date.year) &&
      decide (date.year ≤ 262142))) = true := by simp [valid, years]
  have told : ¬ (!(decide (hour ≤ 23) && decide (minute ≤ 59) && decide (second ≤ 60))) = true := by
    simp [clock]
  have utc : offset? (trimStart ['Z']) = some (0, []) := rfl
  have blank : ¬ (!(trimStart []).isEmpty) = true := by decide
  have zone : Zone.of? 0 = some Zone.utc := rfl
  -- the parts are read off the front, one after the other
  rw [read?, String.toList_ofList, layout, year?_yearText]
  dsimp only [Option.bind_eq_bind, Option.bind_some]
  rw [hyphen, Option.bind_some, number?_padded small.1, Option.bind_some, hyphen, Option.bind_some,
    number?_padded small.2, Option.bind_some]
  dsimp only
  rw [if_pos letter, number?_padded (by omega : hour < 100), Option.bind_some, colon,
    Option.bind_some, number?_padded (by omega : minute < 100), Option.bind_some, colon,
    Option.bind_some, number?_padded (by omega : second < 100), Option.bind_some]
  dsimp only
  rcases fraction?_fractionText nanos with ⟨whole, zero⟩ | ⟨digits, written, fraction⟩
  · rw [whole, zero, List.nil_append, utc, Option.bind_some, if_neg blank, if_neg accepted,
      if_neg told, zone, Option.bind_some]
    simp [Zone.utc]
  · rw [written, List.cons_append]
    change (fraction? (digits ++ ['Z'])).bind _ = _
    rw [fraction, Option.bind_some, utc, Option.bind_some, if_neg blank,
      if_neg accepted, if_neg told, zone, Option.bind_some]
    simp [Zone.utc]

theorem of?_self {t : Instant} (regular : t.Regular) : Instant.of? t.seconds t.nanos = some t := by
  have told : t.nanos < 1000000000 ∨ (t.nanos < 2000000000 ∧ t.seconds % 60 = 59) :=
    regular.imp_right fun ends => ⟨t.nanos_lt, ends⟩
  simp only [Instant.of?, t.first, t.last, told, dite_true]

theorem read?_regular {t : Instant} (regular : t.Regular) :
    read? (String.ofList (stored t)) = some t := by
  have range := t.nanos_lt
  have first := t.first
  have last := t.last
  have years := Date.year_ofDays (t.seconds / 86400)
  unfold Date.firstDay Date.lastDay at years
  unfold stored utcText utcClock clockText
  have ends : 1000000000 ≤ t.nanos → t.seconds % 60 = 59 := by
    intro leap
    exact regular.resolve_left (by omega)
  rw [read?_parts (utcDate t) _ _ _ _ (Date.isValid_ofDays _) ?_ (Date.ofDays_small _) ?_]
  · rw [← of?_self regular, utcDate, Date.toDays_ofDays]
    congr 1
    · omega
    · split <;> omega
  · unfold utcDate
    omega
  · omega

/-- Stored text reads back. -/
theorem read?_stored (t : Instant) : read? (String.ofList (stored t)) = some t.reread := by
  rw [stored, ← utcText_reread, ← stored]
  exact read?_regular t.regular_reread

end Timestamp
end AuditLog
