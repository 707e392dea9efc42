import AuditLog.Text.Digits
import AuditLog.Text.Split
import AuditLog.Time.Instant

/-! Date and time as text after RFC 3339. Written text has a fraction of no, three,
six or nine digits and gives years beyond four digits a sign. Reading is lenient
about blanks, digit counts and the spelling of the offset. -/
namespace AuditLog.Timestamp

open Text

def yearText (year : Int) : List Char :=
  if 0 ≤ year && year ≤ 9999 then padded 4 year.toNat
  else (if year < 0 then '-' else '+') :: padded 4 year.natAbs

def dateText (d : Date) : List Char :=
  yearText d.year ++ '-' :: padded 2 d.month ++ '-' :: padded 2 d.day

/-- Hours, minutes and seconds; a leap second is written as second 60. -/
def clockText (secondOfDay nanos : Nat) : List Char :=
  padded 2 (secondOfDay / 3600) ++ ':' :: padded 2 (secondOfDay / 60 % 60) ++
    ':' :: padded 2 (secondOfDay % 60 + nanos / 1000000000)

def fractionText (nanos : Nat) : List Char :=
  let n := nanos % 1000000000
  if n = 0 then []
  else if n % 1000000 = 0 then '.' :: padded 3 (n / 1000000)
  else if n % 1000 = 0 then '.' :: padded 6 (n / 1000)
  else '.' :: padded 9 n

def utcDate (t : Instant) : Date := Date.ofDays (t.seconds / 86400)

def utcClock (t : Instant) : List Char := clockText (t.seconds % 86400).toNat t.nanos

def utcText (t : Instant) : List Char :=
  dateText (utcDate t) ++ 'T' :: utcClock t ++ fractionText t.nanos

/-- The form shown to readers, with a numeric offset. -/
def display (t : Instant) : List Char := utcText t ++ "+00:00".toList

/-- The form kept in storage, with the letter for UTC. -/
def stored (t : Instant) : List Char := utcText t ++ ['Z']

def offsetSign (offset : Int) : Char := if offset < 0 then '-' else '+'

def offsetText (zone : Zone) : List Char :=
  let minutes := (zone.offset.natAbs + 30) / 60
  offsetSign zone.offset :: padded 2 (minutes / 60) ++ ':' :: padded 2 (minutes % 60)

/-- The offset in full, with seconds only where it has some. -/
def exactOffsetText (zone : Zone) : List Char :=
  let n := zone.offset.natAbs
  let seconds := if n % 60 = 0 then [] else ':' :: padded 2 (n % 60)
  offsetSign zone.offset :: padded 2 (n / 3600) ++ ':' :: padded 2 (n / 60 % 60) ++ seconds

def dayText (day : LocalDay) : List Char :=
  dateText day.date ++ "T00:00:00".toList ++ offsetText day.zone

/-- At most `most` leading digits, at least one, and what follows them. -/
def digits? (most : Nat) (cs : List Char) : Option (List Char × List Char) :=
  let run := (cs.take most).takeWhile isDigit
  if run.isEmpty then none else some (run, cs.drop run.length)

def number? (most : Nat) (cs : List Char) : Option (Nat × List Char) := do
  let (run, rest) ← digits? most (trimStart cs)
  return (decimalValue run, rest)

/-- A year of at most four digits, or of any length after a sign. -/
def year? (cs : List Char) : Option (Int × List Char) :=
  match trimStart cs with
  | '-' :: rest => (digits? rest.length rest).map fun (run, rest) => (-(decimalValue run : Int), rest)
  | '+' :: rest => (digits? rest.length rest).map fun (run, rest) => ((decimalValue run : Int), rest)
  | rest => (digits? 4 rest).map fun (run, rest) => ((decimalValue run : Int), rest)

/-- A character that must come next, after blanks. -/
def mark? (c : Char) (cs : List Char) : Option (List Char) :=
  match trimStart cs with
  | d :: rest => if d == c then some rest else none
  | [] => none

/-- Nanoseconds after the point; digits beyond the ninth are dropped. -/
def fraction? (cs : List Char) : Option (Nat × List Char) := do
  let (run, rest) ← digits? 9 cs
  return (decimalValue run * Nat.pow 10 (9 - run.length), rest.dropWhile isDigit)

/-- Two digits of the offset, the first at most `first`. -/
def twoDigits? (first : Char) (cs : List Char) : Option (Nat × List Char) :=
  match cs with
  | a :: b :: rest =>
    if isDigit a && isDigit b && a ≤ first then some (10 * digitValue a + digitValue b, rest)
    else none
  | _ => none

/-- Seconds east of UTC: a letter or word for UTC, or a sign, hours and minutes. -/
def offset? (cs : List Char) : Option (Int × List Char) :=
  if (cs.take 3).map Char.toLower == ['u', 't', 'c'] then some (0, cs.drop 3)
  else match cs with
    | c :: rest =>
      if c == 'Z' || c == 'z' then some (0, rest)
      else if c == '+' || c == '-' || c == '−' then do
        let (hours, rest) ← twoDigits? '9' rest
        let (minutes, rest) ← twoDigits? '5' (rest.dropWhile fun c => c == ':' || isBlank c)
        let seconds : Int := hours * 3600 + minutes * 60
        return (if c == '+' then seconds else -seconds, rest)
      else none
    | [] => none

/-- Date, a separator, time of day with an optional fraction, and an offset. -/
def read? (s : String) : Option Instant := do
  let (year, cs) ← year? s.toList
  let (month, cs) ← number? 2 (← mark? '-' cs)
  let (day, cs) ← number? 2 (← mark? '-' cs)
  let cs ← match cs with
    | c :: rest => if c == 'T' || c == 't' || c == ' ' then some rest else none
    | [] => none
  let (hour, cs) ← number? 2 cs
  let (minute, cs) ← number? 2 (← mark? ':' cs)
  let (second, cs) ← number? 2 (← mark? ':' cs)
  let (nanos, cs) ← match cs with
    | '.' :: rest => fraction? rest
    | _ => some (0, cs)
  let (offset, rest) ← offset? (trimStart cs)
  if !(trimStart rest).isEmpty then none
  let date : Date := ⟨year, month, day⟩
  if !(date.isValid && -262143 ≤ year && year ≤ 262142) then none
  if !(hour ≤ 23 && minute ≤ 59 && second ≤ 60) then none
  let zone ← Zone.of? offset
  let secondOfDay := hour * 3600 + minute * 60 + min second 59
  Instant.of? (date.toDays * 86400 + secondOfDay - zone.offset)
    (nanos + if second = 60 then 1000000000 else 0)

end AuditLog.Timestamp
