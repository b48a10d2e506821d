import GuardedSearch.Calendar.Written

/-!
# Later days have later dates

`ofDayNumber_precedes` and `clock_precedes` say that a later day has a later date, and a later
second a later clock, compared part by part from the year down to the second.
-/

namespace GuardedSearch

namespace Calendar

/-- A day of a year that begins on the first of March. -/
structure MarchDay where
  year : Int
  day : Int

namespace MarchDay

def Precedes (d e : MarchDay) : Prop := d.year < e.year ∨ d.year = e.year ∧ d.day < e.day

/-- The day `r` days after the begin of a cycle of 400 years. -/
def ofDayOfCycle (r : Int) : MarchDay :=
  let century := min (r / 36524) 3
  let r := r - century * 36524
  let period := r / 1461
  let r := r - period * 1461
  let yearInPeriod := min (r / 365) 3
  ⟨century * 100 + period * 4 + yearInPeriod, r - yearInPeriod * 365⟩

/-- The day `n` days after 1970-01-01. -/
def ofDayNumber (n : Int) : MarchDay :=
  let z := n + 719468
  ⟨z / 146097 * 400 + (ofDayOfCycle (z % 146097)).year, (ofDayOfCycle (z % 146097)).day⟩

/-- The day by month and day of the month. -/
def date (d : MarchDay) : Date :=
  let m := (5 * d.day + 2) / 153
  let day := d.day - (153 * m + 2) / 5 + 1
  if m < 10 then ⟨d.year, (m + 3).toNat, day.toNat⟩ else ⟨d.year + 1, (m - 9).toNat, day.toNat⟩

end MarchDay

namespace Date

/-- An earlier year, or an earlier month of it, or an earlier day of that. -/
def Precedes (d e : Date) : Prop :=
  d.year < e.year ∨ d.year = e.year ∧ (d.month < e.month ∨ d.month = e.month ∧ d.day < e.day)

end Date

-- ---------------------------------------------------------------------------
-- Years
-- ---------------------------------------------------------------------------

namespace MarchDay

theorem ofDayOfCycle_bounds {r : Int} (hpos : 0 ≤ r) (hlt : r < 146097) :
    0 ≤ (ofDayOfCycle r).year ∧ (ofDayOfCycle r).year ≤ 399 ∧
      0 ≤ (ofDayOfCycle r).day ∧ (ofDayOfCycle r).day ≤ 365 := by
  simp only [ofDayOfCycle]
  -- each cut leaves less than what it cuts off
  have : 0 ≤ min (r / 36524) 3 ∧ min (r / 36524) 3 ≤ 3 ∧
      0 ≤ r - min (r / 36524) 3 * 36524 ∧ r - min (r / 36524) 3 * 36524 ≤ 36524 := by
    omega
  generalize min (r / 36524) 3 = century at *
  generalize r - century * 36524 = r at *
  have : 0 ≤ r / 1461 ∧ r / 1461 ≤ 24 ∧ 0 ≤ r - r / 1461 * 1461 ∧ r - r / 1461 * 1461 ≤ 1460 := by
    omega
  generalize r / 1461 = period at *
  generalize r - period * 1461 = r at *
  omega

theorem ofDayOfCycle_precedes {r r' : Int} (hpos : 0 ≤ r) (h : r < r') (hlt : r' < 146097) :
    (ofDayOfCycle r).Precedes (ofDayOfCycle r') := by
  simp only [ofDayOfCycle, Precedes]
  have hcentury : min (r / 36524) 3 < min (r' / 36524) 3 ∨
      min (r / 36524) 3 = min (r' / 36524) 3 ∧
        r - min (r / 36524) 3 * 36524 < r' - min (r' / 36524) 3 * 36524 := by
    omega
  have : 0 ≤ r - min (r / 36524) 3 * 36524 ∧ r - min (r / 36524) 3 * 36524 ≤ 36524 ∧
      0 ≤ r' - min (r' / 36524) 3 * 36524 ∧ r' - min (r' / 36524) 3 * 36524 ≤ 36524 := by
    omega
  generalize min (r / 36524) 3 = century, min (r' / 36524) 3 = century' at *
  generalize r - century * 36524 = r, r' - century' * 36524 = r' at *
  have : 0 ≤ r / 1461 ∧ r / 1461 ≤ 24 ∧ 0 ≤ r' / 1461 ∧ r' / 1461 ≤ 24 ∧
      0 ≤ r - r / 1461 * 1461 ∧ r - r / 1461 * 1461 ≤ 1460 ∧
      0 ≤ r' - r' / 1461 * 1461 ∧ r' - r' / 1461 * 1461 ≤ 1460 := by
    omega
  have hperiod : century < century' ∨ century = century' ∧ (r / 1461 < r' / 1461 ∨
      r / 1461 = r' / 1461 ∧ r - r / 1461 * 1461 < r' - r' / 1461 * 1461) := by
    omega
  generalize r / 1461 = period, r' / 1461 = period' at *
  generalize r - period * 1461 = r, r' - period' * 1461 = r' at *
  clear hcentury
  rcases hperiod with h | ⟨rfl, h | ⟨rfl, h⟩⟩
  · omega
  · omega
  · omega

theorem ofDayNumber_bounds (n : Int) : 0 ≤ (ofDayNumber n).day ∧ (ofDayNumber n).day ≤ 365 := by
  have hpos := Int.emod_nonneg (n + 719468) (show (146097 : Int) ≠ 0 by decide)
  have hlt := Int.emod_lt_of_pos (n + 719468) (show (0 : Int) < 146097 by decide)
  exact (ofDayOfCycle_bounds hpos hlt).2.2

theorem ofDayNumber_precedes {n n' : Int} (h : n < n') :
    (ofDayNumber n).Precedes (ofDayNumber n') := by
  simp only [ofDayNumber, Precedes]
  generalize hz : n + 719468 = z
  generalize hz' : n' + 719468 = z'
  have hpos := Int.emod_nonneg z (show (146097 : Int) ≠ 0 by decide)
  have hlt := Int.emod_lt_of_pos z (show (0 : Int) < 146097 by decide)
  have hpos' := Int.emod_nonneg z' (show (146097 : Int) ≠ 0 by decide)
  have hlt' := Int.emod_lt_of_pos z' (show (0 : Int) < 146097 by decide)
  have hyear := ofDayOfCycle_bounds hpos hlt
  have hyear' := ofDayOfCycle_bounds hpos' hlt'
  have hcycle : z / 146097 < z' / 146097 ∨ z / 146097 = z' / 146097 ∧ z % 146097 < z' % 146097 := by
    omega
  rcases hcycle with hcycle | ⟨hcycle, hrest⟩
  · omega
  · have := ofDayOfCycle_precedes hpos hrest hlt'
    simp only [Precedes] at this
    omega

-- ---------------------------------------------------------------------------
-- Dates
-- ---------------------------------------------------------------------------

theorem date_precedes {d e : MarchDay} (hd : 0 ≤ d.day ∧ d.day ≤ 365)
    (he : 0 ≤ e.day ∧ e.day ≤ 365) (h : d.Precedes e) : d.date.Precedes e.date := by
  obtain ⟨year, day⟩ := d
  obtain ⟨year', day'⟩ := e
  simp only [Precedes, date, Date.Precedes] at *
  have : 0 ≤ (5 * day + 2) / 153 ∧ (5 * day + 2) / 153 ≤ 11 := by omega
  have : 0 ≤ (5 * day' + 2) / 153 ∧ (5 * day' + 2) / 153 ≤ 11 := by omega
  have hmonth : day < day' → (5 * day + 2) / 153 < (5 * day' + 2) / 153 ∨
      (5 * day + 2) / 153 = (5 * day' + 2) / 153 := by omega
  have : 0 ≤ day - (153 * ((5 * day + 2) / 153) + 2) / 5 := by omega
  have : 0 ≤ day' - (153 * ((5 * day' + 2) / 153) + 2) / 5 := by omega
  generalize (5 * day + 2) / 153 = m at *
  generalize (5 * day' + 2) / 153 = m' at *
  by_cases hm : m < 10
  · by_cases hm' : m' < 10
    · simp only [hm, hm', ↓reduceIte]
      omega
    · simp only [hm, hm', ↓reduceIte]
      omega
  · by_cases hm' : m' < 10
    · simp only [hm, hm', ↓reduceIte]
      omega
    · simp only [hm, hm', ↓reduceIte]
      omega

theorem date_bounds {d : MarchDay} (hd : 0 ≤ d.day ∧ d.day ≤ 365) :
    d.date.month < 100 ∧ d.date.day < 100 := by
  obtain ⟨year, day⟩ := d
  simp only [date] at *
  have : 0 ≤ (5 * day + 2) / 153 ∧ (5 * day + 2) / 153 ≤ 11 := by omega
  have : day - (153 * ((5 * day + 2) / 153) + 2) / 5 ≤ 30 := by omega
  generalize (5 * day + 2) / 153 = m at *
  split <;> simp only <;> omega

end MarchDay

theorem Date.ofDayNumber_eq (n : Int) : Date.ofDayNumber n = (MarchDay.ofDayNumber n).date := by
  simp only [Date.ofDayNumber, MarchDay.ofDayNumber, MarchDay.ofDayOfCycle, MarchDay.date,
    Int.add_assoc]

/-- A later day has a later date. -/
theorem Date.ofDayNumber_precedes {n n' : Int} (h : n < n') :
    (ofDayNumber n).Precedes (ofDayNumber n') := by
  rw [ofDayNumber_eq, ofDayNumber_eq]
  exact MarchDay.date_precedes (MarchDay.ofDayNumber_bounds n) (MarchDay.ofDayNumber_bounds n')
    (MarchDay.ofDayNumber_precedes h)

theorem Date.ofDayNumber_bounds (n : Int) :
    (ofDayNumber n).month < 100 ∧ (ofDayNumber n).day < 100 := by
  rw [ofDayNumber_eq]
  exact MarchDay.date_bounds (MarchDay.ofDayNumber_bounds n)

end Calendar

-- ---------------------------------------------------------------------------
-- Clocks
-- ---------------------------------------------------------------------------

/-- An earlier date, or an earlier second of it. -/
def Clock.Precedes (c d : Clock) : Prop :=
  c.date.Precedes d.date ∨ c.date = d.date ∧ (c.hour < d.hour ∨ c.hour = d.hour ∧
    (c.minute < d.minute ∨ c.minute = d.minute ∧ c.second < d.second))

namespace Instant

/-- An earlier second; a leap second comes after the second with the same count. -/
def Precedes (t u : Instant) : Prop :=
  t.seconds < u.seconds ∨ t.seconds = u.seconds ∧ ¬ t.isLeapSecond = true ∧ u.isLeapSecond = true

theorem seconds_mod_of_isLeapSecond {t : Instant} (h : t.isLeapSecond = true) :
    t.seconds % 60 = 59 :=
  t.leap_at_59 (of_decide_eq_true h)

/-- Of two seconds of a day the earlier is shown as earlier. A leap second stands at the end of
its minute, so what comes after it is in a later minute. -/
theorem secondOfDay_precedes {m n leap : Nat} (h : m < n)
    (hleap : leap = 0 ∨ leap = 1 ∧ m % 60 = 59) (leap' : Nat) :
    m / 3600 < n / 3600 ∨ m / 3600 = n / 3600 ∧ (m / 60 % 60 < n / 60 % 60 ∨
      m / 60 % 60 = n / 60 % 60 ∧ m % 60 + leap < n % 60 + leap') := by
  have hminute : m / 60 < n / 60 ∨ m / 60 = n / 60 ∧ m % 60 + leap < n % 60 + leap' := by omega
  have hm : m / 3600 = m / 60 / 60 := by omega
  have hn : n / 3600 = n / 60 / 60 := by omega
  rw [hm, hn]
  rcases hminute with hminute | ⟨hminute, hsecond⟩
  · omega
  · exact .inr ⟨by rw [hminute], .inr ⟨by rw [hminute], hsecond⟩⟩

/-- A later second has a later clock. -/
theorem clock_precedes {t u : Instant} (h : t.Precedes u) : t.clock.Precedes u.clock := by
  simp only [Clock.Precedes, clock, secondsPerDay]
  rcases h with h | ⟨hseconds, ht, hu⟩
  · have hday : t.seconds / 86400 < u.seconds / 86400 ∨
        t.seconds / 86400 = u.seconds / 86400 ∧ t.seconds % 86400 < u.seconds % 86400 := by
      omega
    rcases hday with hday | ⟨hday, hsecond⟩
    · exact .inl (Calendar.Date.ofDayNumber_precedes hday)
    · refine .inr ⟨by rw [hday], secondOfDay_precedes (by omega) ?_ _⟩
      by_cases ht : t.isLeapSecond = true
      · have := seconds_mod_of_isLeapSecond ht
        refine .inr ⟨if_pos ht, ?_⟩
        omega
      · exact .inl (if_neg ht)
  · refine .inr ⟨by rw [hseconds], .inr ⟨by rw [hseconds], .inr ⟨by rw [hseconds], ?_⟩⟩⟩
    simp [hseconds, ht, hu]

theorem clock_bounds (t : Instant) : t.clock.date.month < 100 ∧ t.clock.date.day < 100 ∧
    t.clock.hour < 100 ∧ t.clock.minute < 100 ∧ t.clock.second < 100 := by
  obtain ⟨hmonth, hday⟩ := Calendar.Date.ofDayNumber_bounds (t.seconds / secondsPerDay)
  refine ⟨hmonth, hday, ?_⟩
  simp only [clock, secondsPerDay]
  have hone : (if t.isLeapSecond = true then 1 else 0) ≤ 1 := by split <;> decide
  omega

end Instant

end GuardedSearch
