import AuditLog.Time.Calendar

/-! Points in time, time zones and days in a zone. An instant is a count of seconds
and nanoseconds since 1970-01-01T00:00:00 UTC within the representable years. In a leap
second the nanoseconds run on for a second more; it may follow any second, though those
that are read from text or counts end their minute. -/
namespace AuditLog

structure Instant where
  seconds : Int
  nanos : Nat
  first : -8334601228800 ≤ seconds
  last : seconds ≤ 8210266876799
  nanos_lt : nanos < 2000000000
deriving DecidableEq

namespace Instant

/-- The time at which a second begins. -/
def whole (seconds : Int) (first : -8334601228800 ≤ seconds) (last : seconds ≤ 8210266876799) :
    Instant := ⟨seconds, 0, first, last, by decide⟩

/-- A representable time from its counts; a leap second must end its minute. -/
def of? (seconds : Int) (nanos : Nat) : Option Instant :=
  if first : -8334601228800 ≤ seconds then
    if last : seconds ≤ 8210266876799 then
      if told : nanos < 1000000000 ∨ (nanos < 2000000000 ∧ seconds % 60 = 59) then
        some ⟨seconds, nanos, first, last, by omega⟩
      else none
    else none
  else none

instance : Inhabited Instant := ⟨whole 0 (by decide) (by decide)⟩

def compare (a b : Instant) : Ordering :=
  (Ord.compare a.seconds b.seconds).then (Ord.compare a.nanos b.nanos)

def latest (a b : Instant) : Instant := if (a.compare b).isLT then b else a

/-- Microseconds since the epoch, rounded down. -/
def micros (t : Instant) : Int := t.seconds * 1000000 + t.nanos / 1000

def ofMicros? (us : Int) : Option Instant :=
  of? (us / 1000000) ((us % 1000000).toNat * 1000)

/-- What a clock shows when it is read, in nanoseconds since the epoch; it shows nothing before that. -/
def ofClock? (ns : Int) : Option Instant :=
  if 0 ≤ ns then of? (ns / 1000000000) (ns % 1000000000).toNat else none

/-- The instant `span` seconds later, or earlier when negative, if representable.
Leaving a leap second forward starts from the second before it, leaving it
backward from the second after it. -/
def shift? (t : Instant) (span : Int) : Option Instant :=
  if span = 0 then some t
  else if t.nanos < 1000000000 then of? (t.seconds + span) t.nanos
  else of? (t.seconds + (if span < 0 then 1 else 0) + span) (t.nanos - 1000000000)

end Instant

/-- A fixed offset east of UTC, in seconds, of less than a day. -/
structure Zone where
  offset : Int
  west : -86400 < offset
  east : offset < 86400
deriving DecidableEq

namespace Zone

def utc : Zone := ⟨0, by decide, by decide⟩

instance : Inhabited Zone := ⟨utc⟩

def of? (offset : Int) : Option Zone :=
  if west : -86400 < offset then
    if east : offset < 86400 then some ⟨offset, west, east⟩ else none
  else none

def dateOf (zone : Zone) (t : Instant) : Date := Date.ofDays ((t.seconds + zone.offset) / 86400)

end Zone

/-- A calendar day in a zone; it begins at midnight there. -/
structure LocalDay where
  date : Date
  zone : Zone
deriving DecidableEq, Inhabited

namespace LocalDay

def start (day : LocalDay) : Int := day.date.toDays * 86400 - day.zone.offset

/-- A valid date in the representable years whose midnight is representable. -/
def of? (date : Date) (zone : Zone) : Option LocalDay :=
  let day : LocalDay := ⟨date, zone⟩
  if date.isValid && -262143 ≤ date.year && date.year ≤ 262142 && (Instant.of? day.start 0).isSome
  then some day else none

end LocalDay
end AuditLog
