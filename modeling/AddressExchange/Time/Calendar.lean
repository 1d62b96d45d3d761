/-!
# The calendar

Dates of the Gregorian calendar, extended to all years, and the count of days that stands for them.
Years are numbered astronomically: the year before 1 is 0.
-/

namespace AddressExchange

/-- A date of the Gregorian calendar; not every value is one that exists. -/
structure Date where
  year : Int
  month : Nat
  day : Nat
  deriving DecidableEq, Repr

namespace Date

/-- Has the year a 29 February? -/
def isLeapYear (year : Int) : Bool := year % 4 = 0 && (year % 100 ≠ 0 || year % 400 = 0)

/-- The number of days of a month. -/
def monthLength (year : Int) (month : Nat) : Nat :=
  match month with
  | 2 => if isLeapYear year then 29 else 28
  | 4 | 6 | 9 | 11 => 30
  | _ => 31

/-- The days from the start of the year 0 to the start of a year. -/
def daysBeforeYear (year : Int) : Int :=
  365 * year + (year - 1) / 4 - (year - 1) / 100 + (year - 1) / 400 + 1

/-- The days from the start of a year to the start of one of its months. -/
def daysBeforeMonth (year : Int) (month : Nat) : Nat :=
  (List.range (month - 1)).foldl (fun n m => n + monthLength year (m + 1)) 0

/-- The days from the start of the year 0 to 1970-01-01. -/
def epoch : Int := 719528

/-- Does the date exist? -/
def isValid (d : Date) : Bool :=
  1 ≤ d.month && d.month ≤ 12 && 1 ≤ d.day && d.day ≤ monthLength d.year d.month

/-- The days from 1970-01-01 to a date. -/
def toDays (d : Date) : Int :=
  daysBeforeYear d.year + daysBeforeMonth d.year d.month + d.day - 1 - epoch

/-- The month and day that a number of days fall on when counted from the start of `month`. -/
def inYear (year : Int) (month rest : Nat) : Nat → Date
  | 0 => ⟨year, month, rest + 1⟩
  | left + 1 =>
    if rest < monthLength year month then ⟨year, month, rest + 1⟩
    else inYear year (month + 1) (rest - monthLength year month) left

/-- The year that a day counted from the start of the year 0 falls on. The mean length of a year
gives it up to one. -/
def yearOf (days : Int) : Int :=
  let guess := days * 400 / 146097
  if days < daysBeforeYear guess then guess - 1
  else if daysBeforeYear (guess + 1) ≤ days then guess + 1
  else guess

/-- The date a number of days after 1970-01-01. -/
def ofDays (days : Int) : Date :=
  let days := days + epoch
  let year := yearOf days
  inYear year 1 (days - daysBeforeYear year).toNat 11

end Date

end AddressExchange
