import GuardedSearch.Proofs.CalendarOrder
import Mathlib.Tactic.IntervalCases

/-!
# The date of a day is the date that is counted

A date that a count of days leads to exists, and the count leads back to it. So an instant is what
its clock shows (`instant?_clock`).
-/

namespace GuardedSearch

namespace Calendar

namespace MarchDay

/-- The parts of a day of a cycle of 400 years: its century, its period of four years and its year
in that. A year has a day more only at the end of a period, and a century only at the end of the
cycle. -/
structure InCycle (r century period year day : Int) : Prop where
  century_bounds : 0 ≤ century ∧ century ≤ 3
  period_bounds : 0 ≤ period ∧ period ≤ 24
  year_bounds : 0 ≤ year ∧ year ≤ 3
  day_bounds : 0 ≤ day ∧ day ≤ 365
  leap : day = 365 → year = 3 ∧ (period < 24 ∨ century = 3)
  sum : r = century * 36524 + period * 1461 + year * 365 + day

theorem ofDayOfCycle_inCycle {r : Int} (hpos : 0 ≤ r) (hlt : r < 146097) :
    ∃ century period year, InCycle r century period year (ofDayOfCycle r).day ∧
      (ofDayOfCycle r).year = century * 100 + period * 4 + year := by
  refine ⟨min (r / 36524) 3, (r - min (r / 36524) 3 * 36524) / 1461,
    min ((r - min (r / 36524) 3 * 36524 -
      (r - min (r / 36524) 3 * 36524) / 1461 * 1461) / 365) 3, ?_, rfl⟩
  simp only [ofDayOfCycle]
  have hcentury : 0 ≤ min (r / 36524) 3 ∧ min (r / 36524) 3 ≤ 3 ∧
      0 ≤ r - min (r / 36524) 3 * 36524 ∧ r - min (r / 36524) 3 * 36524 ≤ 36524 ∧
      (r - min (r / 36524) 3 * 36524 = 36524 → min (r / 36524) 3 = 3) := by
    omega
  generalize min (r / 36524) 3 = century at *
  generalize hrest : r - century * 36524 = rest at *
  have hperiod : 0 ≤ rest / 1461 ∧ rest / 1461 ≤ 24 ∧ 0 ≤ rest - rest / 1461 * 1461 ∧
      rest - rest / 1461 * 1461 ≤ 1460 ∧
      (rest / 1461 = 24 → rest - rest / 1461 * 1461 = 1460 → rest = 36524) := by
    omega
  generalize rest / 1461 = period at *
  generalize hrest' : rest - period * 1461 = rest' at *
  constructor <;> omega

/-- The days up to a day of a year that begins in March. -/
theorem dayNumber_date {d : MarchDay} (h : 0 ≤ d.day ∧ d.day ≤ 365) : d.date.dayNumber =
    365 * d.year + d.year / 4 - d.year / 100 + d.year / 400 + d.day - 719468 := by
  obtain ⟨year, day⟩ := d
  simp only [date, Date.dayNumber] at *
  have hm : 0 ≤ (5 * day + 2) / 153 ∧ (5 * day + 2) / 153 ≤ 11 := by omega
  have hday : 0 ≤ day - (153 * ((5 * day + 2) / 153) + 2) / 5 := by omega
  generalize (5 * day + 2) / 153 = m at *
  by_cases hlow : m < 10
  · simp only [hlow, ↓reduceIte]
    have hmonth : ¬ (m + 3).toNat ≤ 2 := by omega
    have hback : (((m + 3).toNat : Int) + 9) % 12 = m := by omega
    rw [if_neg hmonth, hback]
    omega
  · simp only [hlow, ↓reduceIte]
    have hmonth : (m - 9).toNat ≤ 2 := by omega
    have hback : (((m - 9).toNat : Int) + 9) % 12 = m := by omega
    rw [if_pos hmonth, hback]
    omega

/-- A day of a leap year that begins in March is before a year that is a leap year. -/
theorem isValid_date {d : MarchDay} (h : 0 ≤ d.day ∧ d.day ≤ 365)
    (hleap : d.day = 365 → isLeapYear (d.year + 1) = true) : d.date.IsValid := by
  obtain ⟨year, day⟩ := d
  simp only [date, Date.IsValid] at *
  have hm : 0 ≤ (5 * day + 2) / 153 ∧ (5 * day + 2) / 153 ≤ 11 := by omega
  have hlow : 153 * ((5 * day + 2) / 153) ≤ 5 * day + 2 := by omega
  have hhigh : 5 * day + 2 < 153 * ((5 * day + 2) / 153 + 1) := by omega
  generalize (5 * day + 2) / 153 = m at *
  obtain ⟨m, rfl⟩ := Int.eq_ofNat_of_zero_le hm.1
  have hm : m ≤ 11 := by omega
  by_cases hleapDay : day = 365
  · subst hleapDay
    obtain rfl : m = 11 := by omega
    simp [daysInMonth, hleap rfl]
  · interval_cases m <;> simp [daysInMonth] <;> omega

theorem ofDayNumber_parts (n : Int) : ∃ cycle century period year,
    InCycle ((n + 719468) % 146097) century period year (ofDayNumber n).day ∧
      (ofDayNumber n).year = cycle * 400 + (century * 100 + period * 4 + year) ∧
      n + 719468 = cycle * 146097 + (n + 719468) % 146097 := by
  have hpos := Int.emod_nonneg (n + 719468) (show (146097 : Int) ≠ 0 by decide)
  have hlt := Int.emod_lt_of_pos (n + 719468) (show (0 : Int) < 146097 by decide)
  obtain ⟨century, period, year, hparts, hyear⟩ := ofDayOfCycle_inCycle hpos hlt
  refine ⟨(n + 719468) / 146097, century, period, year, hparts, ?_, by omega⟩
  rw [← hyear]
  rfl

theorem isLeapYear_of_day {n : Int} (h : (ofDayNumber n).day = 365) :
    isLeapYear ((ofDayNumber n).year + 1) = true := by
  obtain ⟨cycle, century, period, year, hparts, hyear, -⟩ := ofDayNumber_parts n
  obtain ⟨rfl, hends⟩ := hparts.leap h
  have := hparts.period_bounds
  have := hparts.century_bounds
  rw [hyear]
  simp only [isLeapYear, Bool.and_eq_true, Bool.or_eq_true, beq_iff_eq, bne_iff_ne]
  omega

end MarchDay

namespace Date

/-- The date of a day exists. -/
theorem isValid_ofDayNumber (n : Int) : (ofDayNumber n).IsValid := by
  rw [ofDayNumber_eq]
  exact MarchDay.isValid_date (MarchDay.ofDayNumber_bounds n) MarchDay.isLeapYear_of_day

/-- The date of a day leads back to the day. -/
theorem dayNumber_ofDayNumber (n : Int) : (ofDayNumber n).dayNumber = n := by
  obtain ⟨cycle, century, period, year, hparts, hyear, hcycle⟩ := MarchDay.ofDayNumber_parts n
  obtain ⟨hcentury, hperiod, hyears, -, -, hsum⟩ := hparts
  rw [ofDayNumber_eq, MarchDay.dayNumber_date (MarchDay.ofDayNumber_bounds n)]
  generalize MarchDay.ofDayNumber n = d at *
  have hfours : d.year / 4 = cycle * 100 + century * 25 + period := by omega
  have hcenturies : d.year / 100 = cycle * 4 + century := by omega
  have hcycles : d.year / 400 = cycle := by omega
  rw [hfours, hcenturies, hcycles]
  omega

end Date

end Calendar

-- ---------------------------------------------------------------------------
-- Clocks
-- ---------------------------------------------------------------------------

namespace Instant

theorem of?_self (t : Instant) : of? t.seconds t.nanos = some t :=
  dif_pos ⟨t.earliest, t.latest, t.nanos_lt, t.leap_at_59⟩

/-- The second that a clock shows, counted from the begin of the day. -/
theorem clock_seconds (t : Instant) (second : Nat)
    (h : second = (t.seconds % secondsPerDay).toNat % 60) :
    t.clock.date.dayNumber * secondsPerDay +
      ((t.clock.hour * 3600 + t.clock.minute * 60 + second : Nat) : Int) = t.seconds := by
  have hday := Calendar.Date.dayNumber_ofDayNumber (t.seconds / secondsPerDay)
  simp only [clock, hday]
  simp only [secondsPerDay] at *
  omega

/-- An instant is what its clock shows. -/
theorem instant?_clock (t : Instant) : t.clock.instant? = some t := by
  have hnanos := t.nanos_lt
  have hvalid : t.clock.date.IsValid ∧ t.clock.hour ≤ 23 ∧ t.clock.minute ≤ 59 ∧
      t.clock.second ≤ 60 ∧ t.clock.nanos < nanosPerSecond := by
    refine ⟨Calendar.Date.isValid_ofDayNumber _, ?_⟩
    simp only [clock, secondsPerDay, nanosPerSecond]
    split <;> omega
  rw [Clock.instant?, if_pos hvalid]
  by_cases hleap : t.isLeapSecond = true
  · have hend := seconds_mod_of_isLeapSecond hleap
    have hfraction : nanosPerSecond ≤ t.nanos := of_decide_eq_true hleap
    have hlast : 59 = (t.seconds % secondsPerDay).toNat % 60 := by
      simp only [secondsPerDay]
      omega
    have hsixty : t.clock.second = 60 := by simp only [clock, hleap, ← hlast, ↓reduceIte]
    have hkept : t.clock.nanos + nanosPerSecond = t.nanos := by
      simp only [clock, nanosPerSecond] at *
      omega
    simp only [hsixty, beq_self_eq_true, ↓reduceIte, t.clock_seconds 59 hlast, hkept, t.of?_self]
  · have hfraction : ¬ nanosPerSecond ≤ t.nanos := fun h => hleap (decide_eq_true h)
    have hsecond : t.clock.second = (t.seconds % secondsPerDay).toNat % 60 := by
      simp only [clock, hleap, ↓reduceIte, Bool.false_eq_true, Nat.add_zero]
    have hnot : (t.clock.second == 60) = false := by
      rw [hsecond, beq_eq_false_iff_ne]
      omega
    have hkept : t.clock.nanos = t.nanos := by
      simp only [clock, nanosPerSecond] at *
      omega
    simp only [hnot, Bool.false_eq_true, ↓reduceIte, t.clock_seconds _ hsecond, hkept, t.of?_self]

end Instant

end GuardedSearch
