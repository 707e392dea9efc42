import AuditLog.Time.Instant

/-! Day counts and calendar dates determine each other. Main statements: `toDays_ofDays`,
`isValid_ofDays`, and the days whose years are representable. A day is split into an era of
400 years, a year that begins in March, and a day of that year. -/
namespace AuditLog.Date

def yearOfEra (day : Int) : Int := (day - day / 1460 + day / 36524 - day / 146096) / 365

def daysBefore (year : Int) : Int := 365 * year + year / 4 - year / 100 + year / 400

private theorem century (day : Int) (first : 0 ≤ day) (last : day < 146096) :
    yearOfEra day / 100 = day / 36524 := by
  have zero : day / 146096 = 0 := by omega
  have centuries : day / 36524 = 0 ∨ day / 36524 = 1 ∨ day / 36524 = 2 ∨ day / 36524 = 3 := by
    omega
  unfold yearOfEra
  rw [zero]
  rcases centuries with h | h | h | h <;> rw [h] <;> omega

theorem yearOfEra_range (day : Int) (first : 0 ≤ day) (last : day < 146097) :
    0 ≤ yearOfEra day ∧ yearOfEra day < 400 := by
  unfold yearOfEra
  omega

/-- A day of an era lies in its year. Within a cycle of four years the quotient by 1460 is the
cycle or the next one, which leaves six cases. -/
theorem yearOfEra_bounds (day : Int) (first : 0 ≤ day) (last : day < 146097) :
    daysBefore (yearOfEra day) ≤ day ∧ day < daysBefore (yearOfEra day + 1) := by
  unfold daysBefore
  by_cases leap : day = 146096
  · subst leap
    decide
  have hundred := century day first (by omega)
  have range := yearOfEra_range day first last
  have zero : day / 146096 = 0 := by omega
  have named : yearOfEra day = (day - day / 1460 + day / 36524) / 365 := by
    rw [yearOfEra, zero, Int.sub_zero]
  generalize yearOfEra day = y at *
  have cycle : y - 4 * (day / 1460) = -1 ∨ y - 4 * (day / 1460) = 0 ∨
      y - 4 * (day / 1460) = 1 ∨ y - 4 * (day / 1460) = 2 ∨
      y - 4 * (day / 1460) = 3 ∨ y - 4 * (day / 1460) = 4 := by omega
  have turn : (y + 1) / 100 = y / 100 ∨ (y + 1) / 100 = y / 100 + 1 ∧ y = 100 * (y / 100) + 99 := by
    omega
  rcases cycle with h | h | h | h | h | h <;> rcases turn with c | c <;> constructor <;> omega

structure Parts where
  year : Int
  day : Int

def Parts.ofDays (days : Int) : Parts :=
  let era := (days + 719468) / 146097
  let dayOfEra := (days + 719468) % 146097
  let y := yearOfEra dayOfEra
  ⟨400 * era + y, dayOfEra - (365 * y + y / 4 - y / 100)⟩

def Parts.month (parts : Parts) : Int := (5 * parts.day + 2) / 153

theorem Parts.days (n : Int) :
    daysBefore (ofDays n).year + (ofDays n).day = n + 719468 := by
  have range := yearOfEra_range ((n + 719468) % 146097) (by omega) (by omega)
  simp only [ofDays, daysBefore]
  omega

theorem daysBefore_era (era year : Int) :
    daysBefore (400 * era + year) = 146097 * era + daysBefore year := by
  unfold daysBefore
  omega

theorem Parts.day_range (n : Int) : 0 ≤ (ofDays n).day ∧
    (ofDays n).day < daysBefore ((ofDays n).year + 1) - daysBefore (ofDays n).year := by
  have sum := Parts.days n
  have range := yearOfEra_range ((n + 719468) % 146097) (by omega) (by omega)
  have bounds := yearOfEra_bounds ((n + 719468) % 146097) (by omega) (by omega)
  have before : daysBefore (ofDays n).year =
      146097 * ((n + 719468) / 146097) + daysBefore (yearOfEra ((n + 719468) % 146097)) :=
    daysBefore_era _ _
  have after : daysBefore ((ofDays n).year + 1) =
      146097 * ((n + 719468) / 146097) + daysBefore (yearOfEra ((n + 719468) % 146097) + 1) := by
    rw [← daysBefore_era]
    simp only [ofDays, Int.add_assoc]
  omega

theorem year_length (year : Int) :
    daysBefore (year + 1) - daysBefore year = if isLeapYear (year + 1) then 366 else 365 := by
  unfold daysBefore isLeapYear
  split
  next leap => simp only [Bool.and_eq_true, Bool.or_eq_true, decide_eq_true_eq] at leap; omega
  next common => simp only [Bool.and_eq_true, Bool.or_eq_true, decide_eq_true_eq] at common; omega

theorem ofDays_eq (n : Int) : ofDays n =
    let parts := Parts.ofDays n
    let month := if parts.month < 10 then parts.month + 3 else parts.month - 9
    ⟨if month ≤ 2 then parts.year + 1 else parts.year, month.toNat,
      (parts.day - (153 * parts.month + 2) / 5 + 1).toNat⟩ := rfl

private theorem month_cases (parts : Parts) (first : 0 ≤ parts.day) (last : parts.day < 366) :
    parts.month = 0 ∨ parts.month = 1 ∨ parts.month = 2 ∨ parts.month = 3 ∨ parts.month = 4 ∨
      parts.month = 5 ∨ parts.month = 6 ∨ parts.month = 7 ∨ parts.month = 8 ∨ parts.month = 9 ∨
      parts.month = 10 ∨ parts.month = 11 := by
  unfold Parts.month
  omega

theorem toDays_ofDays (n : Int) : (ofDays n).toDays = n := by
  have sum := Parts.days n
  have range := Parts.day_range n
  rw [year_length] at range
  have last : (Parts.ofDays n).day < 366 := by split at range <;> omega
  rw [ofDays_eq]
  generalize Parts.ofDays n = parts at *
  have months := month_cases parts range.1 last
  unfold Parts.month at *
  unfold daysBefore at sum
  simp only [toDays]
  rcases months with h | h | h | h | h | h | h | h | h | h | h | h <;> simp [h] <;> omega

theorem isValid_ofDays (n : Int) : (ofDays n).isValid = true := by
  have range := Parts.day_range n
  rw [year_length] at range
  have last : (Parts.ofDays n).day < 366 := by split at range <;> omega
  rw [ofDays_eq]
  generalize Parts.ofDays n = parts at *
  have months := month_cases parts range.1 last
  unfold Parts.month at *
  rcases months with h | h | h | h | h | h | h | h | h | h | h | h <;>
    simp [h, isValid, monthLength]
  case inr.inr.inr.inr.inr.inr.inr.inr.inr.inr.inr =>
    -- February: its last day is that of the year.
    cases leap : isLeapYear (parts.year + 1) <;> simp [leap] at range ⊢ <;> omega
  all_goals omega

def firstDay : Int := -96465292
def lastDay : Int := 95026236

theorem year_ofDays (n : Int) :
    (-262143 ≤ (ofDays n).year ↔ firstDay ≤ n) ∧ ((ofDays n).year ≤ 262142 ↔ n ≤ lastDay) := by
  have sum := Parts.days n
  have range := Parts.day_range n
  rw [year_length] at range
  have last : (Parts.ofDays n).day < 366 := by split at range <;> omega
  rw [ofDays_eq]
  generalize Parts.ofDays n = parts at *
  have months := month_cases parts range.1 last
  unfold Parts.month at *
  unfold daysBefore at sum
  unfold firstDay lastDay
  rcases months with h | h | h | h | h | h | h | h | h | h | h | h <;> simp [h] <;>
    constructor <;> constructor <;> intro bound <;> omega

theorem ofDays_small (n : Int) : (ofDays n).month < 100 ∧ (ofDays n).day < 100 := by
  have valid := isValid_ofDays n
  have short : monthLength (ofDays n).year (ofDays n).month ≤ 31 := by
    unfold monthLength
    split
    · split <;> omega
    · split <;> omega
  simp only [isValid, Bool.and_eq_true, decide_eq_true_eq] at valid
  omega

end AuditLog.Date
