import GuardedSearch.Proofs.DayNumbers

/-!
# Dates that exist

A date that exists is the date of one day, which its count of days leads to, and an instant is
what a clock shows just when its own clock shows the same (`instant?_eq_some_iff`). A time that
exists is an instant if its year has four digits.
-/

namespace GuardedSearch

namespace Calendar

-- ---------------------------------------------------------------------------
-- Years that begin in March
-- ---------------------------------------------------------------------------

/-- The days from the first of March of the year 0 to that of another year. -/
def daysBefore (year : Int) : Int := 365 * year + year / 4 - year / 100 + year / 400

theorem daysBefore_succ (year : Int) : daysBefore (year + 1) =
    daysBefore year + 365 + if isLeapYear (year + 1) = true then 1 else 0 := by
  simp only [daysBefore, isLeapYear, Bool.and_eq_true, Bool.or_eq_true, beq_iff_eq, bne_iff_ne]
  split <;> omega

theorem daysBefore_mono {year year' : Int} (h : year ≤ year') :
    daysBefore year ≤ daysBefore year' := by
  simp only [daysBefore]
  omega

namespace MarchDay

/-- A day of a year that begins in March exists. Only before a leap year is there a day 365. -/
structure IsValid (d : MarchDay) : Prop where
  day_nonneg : 0 ≤ d.day
  day_le : d.day ≤ 365
  leap : d.day = 365 → isLeapYear (d.year + 1) = true

theorem isValid_ofDayNumber (n : Int) : (ofDayNumber n).IsValid :=
  ⟨(ofDayNumber_bounds n).1, (ofDayNumber_bounds n).2, isLeapYear_of_day⟩

variable {d e : MarchDay}

theorem IsValid.dayNumber_date (h : d.IsValid) :
    d.date.dayNumber = daysBefore d.year + d.day - 719468 :=
  MarchDay.dayNumber_date ⟨h.day_nonneg, h.day_le⟩

/-- A year ends before a later one begins. -/
theorem IsValid.lt_daysBefore (h : d.IsValid) {year : Int} (hyear : d.year < year) :
    daysBefore d.year + d.day < daysBefore year := by
  have hmono := daysBefore_mono (show d.year + 1 ≤ year from hyear)
  have hle := h.day_le
  rw [daysBefore_succ] at hmono
  split at hmono
  · omega
  · next hplain =>
    have hlast : d.day ≠ 365 := fun hday => hplain (h.leap hday)
    omega

/-- A day that exists is told by the count of days up to it. -/
theorem eq_of_dayNumber_eq (hd : d.IsValid) (he : e.IsValid)
    (h : d.date.dayNumber = e.date.dayNumber) : d = e := by
  rw [hd.dayNumber_date, he.dayNumber_date] at h
  have hdnonneg := hd.day_nonneg
  have henonneg := he.day_nonneg
  rcases Int.lt_trichotomy d.year e.year with hlt | heq | hgt
  · have := hd.lt_daysBefore hlt
    omega
  · obtain ⟨year, day⟩ := d
    obtain ⟨year', day'⟩ := e
    cases heq
    simp only at h
    rw [show day = day' by omega]
  · have := he.lt_daysBefore hgt
    omega

end MarchDay

-- ---------------------------------------------------------------------------
-- Dates
-- ---------------------------------------------------------------------------

theorem daysInMonth_le (year : Int) (month : Nat) : daysInMonth year month ≤ 31 := by
  unfold daysInMonth
  split
  · split <;> decide
  all_goals decide

namespace Date

variable {d : Date}

theorem IsValid.bounds (h : d.IsValid) :
    1 ≤ d.month ∧ d.month ≤ 12 ∧ 1 ≤ d.day ∧ d.day ≤ 31 := by
  obtain ⟨hlow, hhigh⟩ := h
  have hdays := daysInMonth_le d.year d.month
  have hmonth : 1 ≤ d.month ∧ d.month ≤ 12 := by
    unfold daysInMonth at hhigh
    split at hhigh <;> omega
  omega

/-- In a year that begins in March a month ends before the next begins, and only a leap day is
the day 365 of its year. -/
theorem month_ends (year : Int) {month : Nat} (hlow : 1 ≤ month) (hhigh : month ≤ 12) {m : Int}
    (hm : ((month : Int) + 9) % 12 = m) :
    (153 * m + 2) / 5 + daysInMonth year month ≤ (153 * (m + 1) + 2) / 5 ∧
      ((153 * m + 2) / 5 + daysInMonth year month ≤ 365 ∨
        (153 * m + 2) / 5 + daysInMonth year month = 366 ∧ month = 2 ∧ isLeapYear year = true) := by
  subst hm
  by_cases hfebruary : month = 2
  · subst hfebruary
    rw [daysInMonth]
    split <;> simp_all
  · interval_cases month <;> simp_all [daysInMonth]

/-- A date as a day of a year that begins in March. -/
def marchDay (d : Date) : MarchDay :=
  let m : Int := (d.month + 9) % 12
  ⟨if d.month ≤ 2 then d.year - 1 else d.year, (153 * m + 2) / 5 + (d.day - 1)⟩

theorem marchDay_eq (h : d.IsValid) : d.marchDay.IsValid ∧ d.marchDay.date = d := by
  obtain ⟨hlow, hhigh, -⟩ := h.bounds
  obtain ⟨year, month, day⟩ := d
  obtain ⟨hday, hlast⟩ := h
  simp only at hlow hhigh hday hlast
  obtain ⟨m, hm⟩ : ∃ m : Int, ((month : Int) + 9) % 12 = m := ⟨_, rfl⟩
  have hearly : m < 10 → ¬ month ≤ 2 ∧ (m + 3).toNat = month := by omega
  have hlate : ¬ m < 10 → month ≤ 2 ∧ (m - 9).toNat = month := by omega
  obtain ⟨hends, hyear⟩ := month_ends year hlow hhigh hm
  have hmonth : (5 * ((153 * m + 2) / 5 + ((day : Int) - 1)) + 2) / 153 = m := by omega
  have hback : ((153 * m + 2) / 5 + ((day : Int) - 1) - (153 * m + 2) / 5 + 1).toNat = day := by
    omega
  simp only [marchDay, MarchDay.date, hm, hmonth, hback]
  refine ⟨⟨?_, ?_, fun hfull => ?_⟩, ?_⟩
  · simp only
    omega
  · simp only
    omega
  · simp only at hfull ⊢
    obtain ⟨-, rfl, hleap⟩ := hyear.resolve_left (by omega)
    rwa [if_pos (Nat.le_refl 2), Int.sub_add_cancel]
  · by_cases hm10 : m < 10
    · rw [if_pos hm10, if_neg (hearly hm10).1, (hearly hm10).2]
    · rw [if_neg hm10, if_pos (hlate hm10).1, (hlate hm10).2, Int.sub_add_cancel]

/-- A date that exists is the date of the day that it leads to. -/
theorem ofDayNumber_dayNumber (h : d.IsValid) : ofDayNumber d.dayNumber = d := by
  obtain ⟨hvalid, hdate⟩ := marchDay_eq h
  have hcount : (MarchDay.ofDayNumber d.dayNumber).date.dayNumber = d.marchDay.date.dayNumber := by
    rw [← ofDayNumber_eq, dayNumber_ofDayNumber, hdate]
  rw [ofDayNumber_eq,
    MarchDay.eq_of_dayNumber_eq (MarchDay.isValid_ofDayNumber _) hvalid hcount, hdate]

/-- The days of years of four digits are some three and a half million. -/
theorem IsValid.dayNumber_bounds (h : d.IsValid) (hlow : 0 ≤ d.year) (hhigh : d.year ≤ 9999) :
    -719834 ≤ d.dayNumber ∧ d.dayNumber ≤ 2932956 := by
  obtain ⟨hvalid, hdate⟩ := marchDay_eq h
  have hcount := hvalid.dayNumber_date
  have hnonneg := hvalid.day_nonneg
  have hle := hvalid.day_le
  have hyear : -1 ≤ d.marchDay.year ∧ d.marchDay.year ≤ 9999 := by
    simp only [marchDay]
    split <;> omega
  have hfirst : -366 ≤ daysBefore d.marchDay.year := daysBefore_mono hyear.1
  have hlast : daysBefore d.marchDay.year ≤ 3652059 := daysBefore_mono hyear.2
  rw [hdate] at hcount
  omega

end Date

end Calendar

open Calendar

-- ---------------------------------------------------------------------------
-- Clocks
-- ---------------------------------------------------------------------------

namespace Instant

variable {t : Instant}

theorem of?_eq_some_iff {seconds : Int} {nanos : Nat} :
    of? seconds nanos = some t ↔ t.seconds = seconds ∧ t.nanos = nanos := by
  constructor
  · intro h
    rw [of?] at h
    split at h
    · cases h
      exact ⟨rfl, rfl⟩
    · cases h
  · rintro ⟨rfl, rfl⟩
    exact t.of?_self

/-- The clock of an instant shows the date and the time of day that its seconds are counted
from. -/
theorem clock_eq {c : Clock} (hdate : c.date.IsValid) (hhour : c.hour ≤ 23)
    (hminute : c.minute ≤ 59) {second : Nat} (hsecond : second ≤ 59)
    (hseconds : t.seconds = c.date.dayNumber * secondsPerDay +
      (c.hour * 3600 + c.minute * 60 + second : Nat))
    (hshown : c.second = second + if t.isLeapSecond = true then 1 else 0)
    (hnanos : c.nanos = t.nanos % nanosPerSecond) : t.clock = c := by
  have hday : t.seconds / secondsPerDay = c.date.dayNumber := by
    simp only [secondsPerDay] at *
    omega
  have hrest : (t.seconds % secondsPerDay).toNat = c.hour * 3600 + c.minute * 60 + second := by
    simp only [secondsPerDay] at *
    omega
  have hhours : (c.hour * 3600 + c.minute * 60 + second) / 3600 = c.hour := by omega
  have hminutes : (c.hour * 3600 + c.minute * 60 + second) / 60 % 60 = c.minute := by omega
  have hseconds : (c.hour * 3600 + c.minute * 60 + second) % 60 = second := by omega
  simp only [clock, hday, hrest, Date.ofDayNumber_dayNumber hdate, hhours, hminutes, hseconds,
    ← hshown, ← hnanos]

end Instant

namespace Clock

variable {c : Clock} {t : Instant}

/-- The date exists, and so does the time of day, in which the second may be 60. -/
structure IsTime (c : Clock) : Prop where
  date : c.date.IsValid
  hour_le : c.hour ≤ 23
  minute_le : c.minute ≤ 59
  second_le : c.second ≤ 60
  nanos_lt : c.nanos < nanosPerSecond

theorem isTime_of_instant? (h : c.instant? = some t) : c.IsTime := by
  rw [instant?] at h
  split at h
  · next hc => exact ⟨hc.1, hc.2.1, hc.2.2.1, hc.2.2.2.1, hc.2.2.2.2⟩
  · cases h

/-- Second 60 is counted as second 59, with a whole second more of nanoseconds. -/
theorem IsTime.instant?_eq (h : c.IsTime) : c.instant? =
    Instant.of? (c.date.dayNumber * secondsPerDay +
      (c.hour * 3600 + c.minute * 60 + min c.second 59 : Nat))
      (if c.second = 60 then c.nanos + nanosPerSecond else c.nanos) := by
  have hsecond := h.second_le
  rw [instant?, if_pos ⟨h.date, h.hour_le, h.minute_le, hsecond, h.nanos_lt⟩]
  by_cases hleap : c.second = 60
  · simp [hleap]
  · simp [hleap, show min c.second 59 = c.second by omega]

/-- An instant is what a clock shows just when its own clock shows the same. -/
theorem instant?_eq_some_iff : c.instant? = some t ↔ t.clock = c := by
  refine ⟨fun h => ?_, fun h => h ▸ t.instant?_clock⟩
  have htime := isTime_of_instant? h
  have hnanos := htime.nanos_lt
  have hsecond := htime.second_le
  rw [htime.instant?_eq, Instant.of?_eq_some_iff] at h
  obtain ⟨hseconds, hfraction⟩ := h
  apply Instant.clock_eq htime.date htime.hour_le htime.minute_le (Nat.min_le_right ..) hseconds
  · simp only [Instant.isLeapSecond, hfraction, decide_eq_true_eq]
    split <;> split <;> omega
  · rw [hfraction]
    simp only [nanosPerSecond] at *
    split <;> omega

/-- A time in a year of four digits is an instant. -/
theorem IsTime.exists_instant? (h : c.IsTime) (hlow : 0 ≤ c.date.year)
    (hhigh : c.date.year ≤ 9999) : ∃ t, c.instant? = some t := by
  have hdays := h.date.dayNumber_bounds hlow hhigh
  have hhour := h.hour_le
  have hminute := h.minute_le
  have hnanos := h.nanos_lt
  rw [h.instant?_eq, Instant.of?, dif_pos]
  · exact ⟨_, rfl⟩
  · simp only [secondsPerDay, nanosPerSecond] at *
    split <;> omega

end Clock

-- ---------------------------------------------------------------------------
-- Seconds
-- ---------------------------------------------------------------------------

namespace Instant

section
variable (t : Instant) {nanos : Nat} (h : nanos < nanosPerSecond)

include h

theorem withNanos_lt :
    (if t.isLeapSecond = true then nanos + nanosPerSecond else nanos) < 2000000000 := by
  simp only [nanosPerSecond] at *
  split <;> omega

theorem withNanos_at_59 (hleap : 1000000000 ≤
    if t.isLeapSecond = true then nanos + nanosPerSecond else nanos) : t.seconds % 60 = 59 := by
  simp only [nanosPerSecond] at *
  split at hleap
  · next hlast => exact t.leap_at_59 (of_decide_eq_true hlast)
  · omega

end

/-- Another instant of the same second, which stays a leap second if it is one. -/
def withNanos (t : Instant) (nanos : Nat) (h : nanos < nanosPerSecond) : Instant where
  seconds := t.seconds
  nanos := if t.isLeapSecond = true then nanos + nanosPerSecond else nanos
  earliest := t.earliest
  latest := t.latest
  nanos_lt := t.withNanos_lt h
  leap_at_59 := t.withNanos_at_59 h

variable {t : Instant} {nanos : Nat} {h : nanos < nanosPerSecond}

theorem isLeapSecond_withNanos : (t.withNanos nanos h).isLeapSecond = t.isLeapSecond := by
  rw [Bool.eq_iff_iff, isLeapSecond, decide_eq_true_eq]
  simp only [withNanos]
  split
  · next hleap => exact iff_of_true (Nat.le_add_left ..) hleap
  · next hplain => exact iff_of_false (by omega) hplain

/-- The clock of another instant of the same second differs in the nanoseconds only. -/
theorem clock_withNanos : (t.withNanos nanos h).clock = { t.clock with nanos } := by
  have hnanos : (t.withNanos nanos h).nanos % nanosPerSecond = nanos := by
    simp only [withNanos]
    split
    · rw [Nat.add_mod_right, Nat.mod_eq_of_lt h]
    · exact Nat.mod_eq_of_lt h
  simp only [clock, hnanos, isLeapSecond_withNanos]
  rfl

theorem wholeSecond_eq (t : Instant) : t.wholeSecond = t.withNanos 0 (by decide) := by
  by_cases hleap : 1000000000 ≤ t.nanos
  · simp [wholeSecond, withNanos, isLeapSecond, nanosPerSecond, hleap]
  · simp [wholeSecond, withNanos, isLeapSecond, nanosPerSecond, hleap]

theorem clock_wholeSecond (t : Instant) : t.wholeSecond.clock = { t.clock with nanos := 0 } := by
  rw [wholeSecond_eq, clock_withNanos]

end Instant

end GuardedSearch
