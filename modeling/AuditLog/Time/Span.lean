import AuditLog.Text.Digits

/-! Spans of time in text, such as `3d` or `1w2d12h`: parts of digits and a unit, in
seconds, minutes, hours, days or weeks. Every amount, product and sum on the way has to
fit a signed 64-bit word, and so have the milliseconds of the total. -/
namespace AuditLog.Span

def unitSeconds? (c : Char) : Option Nat :=
  match c.toLower with
  | 's' => some 1
  | 'm' => some 60
  | 'h' => some 3600
  | 'd' => some 86400
  | 'w' => some 604800
  | _ => none

/-- A result that a signed 64-bit word holds. -/
def word? (n : Nat) : Option Nat := if n ≤ 0x7FFFFFFFFFFFFFFF then some n else none

def partSeconds? (digits : List Char) (letter : Char) : Option Nat := do
  let unit ← unitSeconds? letter
  let amount ← (Text.natOfDigits? digits).bind word?
  word? (amount * unit)

/-- The sum of all parts. `digits` holds, in reverse, the digits read since the last
unit, and `total` the seconds before them. -/
def total? (total : Nat) (digits : List Char) : List Char → Option Nat
  | [] => if digits.isEmpty then some total else none
  | c :: rest =>
    if Text.isDigit c then total? total (c :: digits) rest
    else do
      let seconds ← partSeconds? digits.reverse c
      total? (← word? (total + seconds)) [] rest

/-- The longest span, in seconds: as many milliseconds as a signed word holds. -/
def longest : Nat := 0x7FFFFFFFFFFFFFFF / 1000

/-- The seconds that a text names, when they are positive and within bounds. -/
def parse? (s : String) : Option Nat :=
  (total? 0 [] s.toList).filter fun n => 1 ≤ n && n ≤ longest

end AuditLog.Span
