/-!
# Calendar dates

The proleptic Gregorian calendar with a year zero, and the count of days from 1970-01-01.
Days are counted in years that begin on the first of March, so that a leap day is the last
day of its year.
-/

namespace GuardedSearch.Calendar

def isLeapYear (year : Int) : Bool :=
  year % 4 == 0 && (year % 100 != 0 || year % 400 == 0)

/-- The length of a month; zero for a number that is no month. -/
def daysInMonth (year : Int) (month : Nat) : Nat :=
  match month with
  | 2 => if isLeapYear year then 29 else 28
  | 4 | 6 | 9 | 11 => 30
  | 1 | 3 | 5 | 7 | 8 | 10 | 12 => 31
  | _ => 0

structure Date where
  year : Int
  month : Nat
  day : Nat
deriving DecidableEq, Repr

namespace Date

def IsValid (d : Date) : Prop := 1 ≤ d.day ∧ d.day ≤ daysInMonth d.year d.month

instance (d : Date) : Decidable d.IsValid := inferInstanceAs (Decidable (_ ∧ _))

/-- Days from 1970-01-01 to `d`. -/
def dayNumber (d : Date) : Int :=
  let y : Int := if d.month ≤ 2 then d.year - 1 else d.year
  let m : Int := (d.month + 9) % 12
  365 * y + y / 4 - y / 100 + y / 400 + (153 * m + 2) / 5 + (d.day - 1) - 719468

/-- The date `n` days after 1970-01-01. A cycle of 400 years has 146097 days; its centuries,
the centuries' periods of four years and their years are cut off one after the other, the
last century of a cycle and the last year of a period being a day longer. -/
def ofDayNumber (n : Int) : Date :=
  let z := n + 719468
  let cycle := z / 146097
  let r := z % 146097
  let century := min (r / 36524) 3
  let r := r - century * 36524
  let period := r / 1461
  let r := r - period * 1461
  let yearInPeriod := min (r / 365) 3
  let dayOfYear := r - yearInPeriod * 365
  let m := (5 * dayOfYear + 2) / 153
  let day := dayOfYear - (153 * m + 2) / 5 + 1
  let year := cycle * 400 + century * 100 + period * 4 + yearInPeriod
  if m < 10 then ⟨year, (m + 3).toNat, day.toNat⟩ else ⟨year + 1, (m - 9).toNat, day.toNat⟩

end Date

end GuardedSearch.Calendar
