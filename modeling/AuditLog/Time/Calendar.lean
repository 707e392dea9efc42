/-! The Gregorian calendar, extended to every year. Days are counted from
1970-01-01; years are counted in eras of 400 years that begin on 1 March, so that
a leap day is the last day of its year. -/
namespace AuditLog

structure Date where
  year : Int
  month : Nat
  day : Nat
deriving DecidableEq, Inhabited, Repr

namespace Date

def isLeapYear (year : Int) : Bool := year % 4 = 0 && (year % 100 ≠ 0 || year % 400 = 0)

def monthLength (year : Int) (month : Nat) : Nat :=
  if month = 2 then (if isLeapYear year then 29 else 28)
  else if month = 4 || month = 6 || month = 9 || month = 11 then 30
  else 31

def isValid (d : Date) : Bool :=
  1 ≤ d.month && d.month ≤ 12 && 1 ≤ d.day && d.day ≤ monthLength d.year d.month

def toDays (d : Date) : Int :=
  let year := if d.month ≤ 2 then d.year - 1 else d.year
  let monthFromMarch : Int := if d.month ≤ 2 then d.month + 9 else d.month - 3
  let dayOfYear := (153 * monthFromMarch + 2) / 5 + d.day - 1
  365 * year + year / 4 - year / 100 + year / 400 + dayOfYear - 719468

def ofDays (days : Int) : Date :=
  let shifted := days + 719468
  let era := shifted / 146097
  let dayOfEra := shifted % 146097
  let yearOfEra := (dayOfEra - dayOfEra / 1460 + dayOfEra / 36524 - dayOfEra / 146096) / 365
  let dayOfYear := dayOfEra - (365 * yearOfEra + yearOfEra / 4 - yearOfEra / 100)
  let monthFromMarch := (5 * dayOfYear + 2) / 153
  let day := dayOfYear - (153 * monthFromMarch + 2) / 5 + 1
  let month := if monthFromMarch < 10 then monthFromMarch + 3 else monthFromMarch - 9
  let year := 400 * era + yearOfEra
  ⟨if month ≤ 2 then year + 1 else year, month.toNat, day.toNat⟩

end Date
end AuditLog
