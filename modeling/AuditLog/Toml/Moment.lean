import AuditLog.Text.Digits
import AuditLog.Time.Calendar
import AuditLog.Toml
import AuditLog.Toml.Layout

/-! TOML moments: a date, a time of day, or a date with a time and perhaps an offset.
What begins like a date or like a time must go on as one, so it is never a number. -/
namespace AuditLog.Toml

/-- A number of exactly `width` digits, from `low` to `high`. -/
def field? (width low high : Nat) : Reader Nat := fun cs => do
  let run := cs.take width
  if run.length < width then none
  let n ← Text.natOfDigits? run
  if low ≤ n && n ≤ high then some (n, cs.drop width) else none

def mark? (mark : Char) : List Char → Option (List Char)
  | c :: rest => if c == mark then some rest else none
  | [] => none

def year? : Reader Nat := fun cs => do
  let (year, rest) ← field? 4 0 9999 cs
  return (year, ← mark? '-' rest)

def hour? : Reader Nat := fun cs => do
  let (hour, rest) ← field? 2 0 23 cs
  return (hour, ← mark? ':' rest)

def date? : Reader Date := fun cs => do
  let (year, rest) ← year? cs
  let (month, rest) ← field? 2 1 12 rest
  let (day, rest) ← field? 2 1 (Date.monthLength year month) (← mark? '-' rest)
  return (⟨year, month, day⟩, rest)

def skipFraction : List Char → List Char
  | '.' :: rest =>
    let run := rest.takeWhile Text.isDigit
    if run.isEmpty then '.' :: rest else rest.drop run.length
  | cs => cs

/-- Drops a time of day, in which a minute may have a leap second. -/
def skipTime? (cs : List Char) : Option (List Char) := do
  let (_, rest) ← hour? cs
  let (_, rest) ← field? 2 0 59 rest
  let (_, rest) ← field? 2 0 60 (← mark? ':' rest)
  return skipFraction rest

def skipOffset? : List Char → Option (List Char)
  | [] => some []
  | c :: rest =>
    if c == 'Z' || c == 'z' then some rest
    else if c == '+' || c == '-' then do
      let (_, rest) ← hour? rest
      let (_, rest) ← field? 2 0 59 rest
      return rest
    else some (c :: rest)

/-- Drops the time after a date, if there is one; it may have an offset. -/
def skipTimeOfDate? : List Char → Option (List Char)
  | [] => some []
  | c :: rest =>
    if (c == 'T' || c == 't' || c == ' ') && (hour? rest).isSome then
      (skipTime? rest).bind skipOffset?
    else some (c :: rest)

def isMoment (cs : List Char) : Bool := (year? cs).isSome || (hour? cs).isSome

/-- A moment as it is written, in a text that begins like one. -/
def moment? : Reader Toml := fun cs => do
  let rest ← if (year? cs).isSome then (date? cs).bind fun (_, rest) => skipTimeOfDate? rest
    else skipTime? cs
  return (.moment (String.ofList (cs.take (cs.length - rest.length))), rest)

end AuditLog.Toml
