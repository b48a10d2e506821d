import GuardedSearch.Proofs.TermOrder

/-!
# Terms byte by byte

`term_bytes_order` says that the terms of two values of one type, compared byte by byte, give
the order of the values, that terms of numbers and dates have one width a type, and that a date
outside the years 0 to 9999 has none. The order of instants is the order of what their clocks
show, by `precedes_iff_clock`.
-/

namespace GuardedSearch

-- ---------------------------------------------------------------------------
-- Clocks
-- ---------------------------------------------------------------------------

theorem Clock.Precedes.asymm {c d : Clock} (h : c.Precedes d) : ¬ d.Precedes c := by
  intro h'
  rcases h with hdate | ⟨hdate, htime⟩
  · rcases h' with hdate' | ⟨hdate', -⟩
    · simp only [Calendar.Date.Precedes] at hdate hdate'
      omega
    · rw [hdate'] at hdate
      simp only [Calendar.Date.Precedes] at hdate
      omega
  · rcases h' with hdate' | ⟨-, htime'⟩
    · rw [hdate] at hdate'
      simp only [Calendar.Date.Precedes] at hdate'
      omega
    · omega

namespace Instant

variable {t u : Instant}

/-- Instants of which neither precedes the other are of one second. -/
theorem eq_second_of_not_precedes (htu : ¬ t.Precedes u) (hut : ¬ u.Precedes t) :
    t.seconds = u.seconds ∧ t.isLeapSecond = u.isLeapSecond := by
  simp only [Precedes, not_or, not_and] at htu hut
  have hseconds : t.seconds = u.seconds := by omega
  refine ⟨hseconds, ?_⟩
  cases ht : t.isLeapSecond <;> cases hu : u.isLeapSecond
  · rfl
  · exact absurd hu (htu.2 hseconds (by simp [ht]))
  · exact absurd ht (hut.2 hseconds.symm (by simp [hu]))
  · rfl

/-- An instant precedes another just when its clock shows an earlier second. -/
theorem precedes_iff_clock : t.Precedes u ↔ t.clock.Precedes u.clock := by
  constructor
  · exact clock_precedes
  · intro hclock
    apply Classical.byContradiction
    intro htu
    by_cases hut : u.Precedes t
    · exact (clock_precedes hut).asymm hclock
    · obtain ⟨hseconds, hleap⟩ := eq_second_of_not_precedes htu hut
      have hirrefl : ¬ t.clock.Precedes t.clock := fun h => h.asymm h
      apply hirrefl
      simpa only [Clock.Precedes, clock, hseconds, hleap] using hclock

end Instant

-- ---------------------------------------------------------------------------
-- Widths
-- ---------------------------------------------------------------------------

namespace Term

theorem length_ofInt32 (n : Int32) : (ofInt32 n).length = 8 := by
  rw [ofInt32, String.length_ofList, Text.length_fixedDigits]

theorem length_ofInt64 (n : Int64) : (ofInt64 n).length = 16 := by
  rw [ofInt64, String.length_ofList, Text.length_fixedDigits]

theorem length_ofInstant {t : Instant} {s : String} (h : ofInstant t = .ok s) : s.length = 14 := by
  obtain ⟨-, rfl⟩ := ofInstant_ok h
  simp only [String.length_ofList, Clock.compact, List.length_append, Text.length_fixedDigits]

end Term

namespace FieldValue

/-- A value that an index can hold: any but a date outside the years 0 to 9999. -/
def IsIndexable : FieldValue → Prop
  | date t => 0 ≤ t.year ∧ t.year ≤ 9999
  | _ => True

instance : DecidablePred IsIndexable
  | date _ => inferInstanceAs (Decidable (_ ∧ _))
  | text _ | int32 _ | int64 _ | boolean _ => .isTrue trivial

theorem exists_term_of_isIndexable {v : FieldValue} (h : v.IsIndexable) : ∃ s, v.term = .ok s := by
  cases v with
  | date t => exact ⟨_, if_pos h⟩
  | _ => exact ⟨_, rfl⟩

/-- How many characters the terms of a type have, where they have all as many. -/
def termWidth? : FieldType → Option Nat
  | .int32 => some 8
  | .int64 => some 16
  | .date => some 14
  | .text | .boolean => none

theorem length_term {v : FieldValue} {s : String} {width : Nat} (h : v.term = .ok s)
    (hwidth : termWidth? v.fieldType = some width) : s.length = width := by
  cases v with
  | int32 n =>
    rw [← Except.ok.inj h, ← Option.some.inj hwidth]
    exact Term.length_ofInt32 n
  | int64 n =>
    rw [← Except.ok.inj h, ← Option.some.inj hwidth]
    exact Term.length_ofInt64 n
  | date t =>
    rw [← Option.some.inj hwidth]
    exact Term.length_ofInstant h
  | text s => cases hwidth
  | boolean b => cases hwidth

end FieldValue

/-- Terms that compare in an order have bytes that compare in it. -/
theorem Text.orderBy_bytes {s t : String} {o : Ordering} (h : Text.Compares s t o) :
    orderBy (· < ·) (Text.bytes s) (Text.bytes t) = o := by
  cases o with
  | lt => exact if_pos (Text.bytes_lt_iff.mpr h)
  | eq =>
    cases (h : s = t)
    rw [orderBy, if_neg (List.lt_irrefl _), if_neg (List.lt_irrefl _)]
  | gt =>
    have hgt := Text.bytes_lt_iff.mpr (h : t < s)
    have hlt : ¬ Text.bytes s < Text.bytes t := fun hlt =>
      List.lt_irrefl _ (List.lt_trans hlt hgt)
    rw [orderBy, if_neg hlt, if_pos hgt]

/-- The terms of two values of one type, compared byte by byte, give the order of the values:
numbers by size, false before true, texts by bytes, dates by the second that their clock shows,
which is 60 in a leap second. A term of a number or a date has the width of its type, and a date
in another year is an error. -/
theorem FieldValue.term_bytes_order :
    (∀ v w : FieldValue, v.IsIndexable → w.IsIndexable → v.fieldType = w.fieldType →
      ∃ s t, v.term = .ok s ∧ w.term = .ok t ∧
        v.order? w = some (orderBy (· < ·) (Text.bytes s) (Text.bytes t))) ∧
    (∀ t u : Instant, t.Precedes u ↔ t.clock.Precedes u.clock) ∧
    (∀ (v : FieldValue) (s : String) (width : Nat), v.term = .ok s →
      termWidth? v.fieldType = some width → s.length = width) ∧
    ∀ t : Instant, ¬ (FieldValue.date t).IsIndexable →
      (FieldValue.date t).term = .error (.yearOutOfRange t) := by
  refine ⟨?_, fun t u => Instant.precedes_iff_clock, fun v s width => length_term, ?_⟩
  · intro v w hv hw htype
    obtain ⟨s, hs⟩ := exists_term_of_isIndexable hv
    obtain ⟨t, ht⟩ := exists_term_of_isIndexable hw
    obtain ⟨o, ho⟩ := exists_order? htype
    refine ⟨s, t, hs, ht, ?_⟩
    rw [ho, Text.orderBy_bytes (compares_of_order? hs ht ho)]
  · intro t hyear
    exact if_neg hyear

/-- The leap second at the end of the year 2016. -/
def Instant.leapSecond2016 : Instant :=
  ⟨1483228799, 1000000000, by decide, by decide, by decide, by decide⟩

/-- The begin of the year 2017. -/
def Instant.newYear2017 : Instant := ⟨1483228800, 0, by decide, by decide, by decide, by decide⟩

/-- A leap second comes before the next minute, and its term before the term of that minute. -/
theorem FieldValue.term_bytes_order_leap_second : ∃ s t,
    (FieldValue.date .leapSecond2016).term = .ok s ∧ (FieldValue.date .newYear2017).term = .ok t ∧
      (FieldValue.date .leapSecond2016).order? (.date .newYear2017) = some .lt ∧
      orderBy (· < ·) (Text.bytes s) (Text.bytes t) = .lt := by
  have horder : (FieldValue.date .leapSecond2016).order? (.date .newYear2017) = some .lt := by
    decide
  obtain ⟨s, t, hs, ht, ho⟩ := FieldValue.term_bytes_order.1 (.date .leapSecond2016)
    (.date .newYear2017) (by decide) (by decide) rfl
  exact ⟨s, t, hs, ht, horder, Option.some.inj (ho.symm.trans horder)⟩

end GuardedSearch
