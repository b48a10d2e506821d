import GuardedSearch.Calendar.Literal
import GuardedSearch.Proofs.DayNumbers
import GuardedSearch.Proofs.Numerals
import Mathlib.Data.List.TakeWhile

/-!
# Stamps

The RFC 3339 form of an instant in a year of four digits is read back as the instant, with its
nanoseconds and in a leap second too (`ofStamp?_rfc3339`).
-/

namespace GuardedSearch

open Text Calendar

-- ---------------------------------------------------------------------------
-- Scanning
-- ---------------------------------------------------------------------------

namespace Text.Scanner

variable {α β : Type}

/-- What comes next reads on where the first has stopped. -/
theorem bind_of {s : Scanner α} {f : α → Scanner β} {cs rest : List Char} {a : α}
    (h : s cs = some (a, rest)) : (s >>= f) cs = f a rest := by
  change (s cs).bind (fun r => f r.1 r.2) = _
  rw [h]
  rfl

/-- What is computed without reading leaves the text as it is. -/
theorem lift_run (outcome : Option α) (cs : List Char) :
    (liftM outcome : Scanner α) cs = outcome.map (·, cs) := by
  cases outcome <;> rfl

theorem orElse_run_of_none {s t : Scanner α} {cs : List Char} (h : s cs = none) :
    (s <|> t) cs = t cs := by
  change (s cs <|> t cs) = _
  rw [h]
  rfl

theorem satisfying_run {p : Char → Bool} {c : Char} (h : p c = true) (cs : List Char) :
    satisfying p (c :: cs) = some (c, cs) := if_pos h

theorem char_run (c : Char) (cs : List Char) : char c (c :: cs) = some ((), cs) :=
  bind_of (satisfying_run (beq_self_eq_true c) cs)

theorem takeWhile_isDigit {digits : List Char} (h : ∀ c ∈ digits, isDigit c = true) :
    digits.takeWhile isDigit = digits := List.takeWhile_eq_self_iff.mpr h

/-- As many digits as may be read are read as their number. -/
theorem number_run {least most n : Nat} (h : least ≤ most) (cs : List Char) :
    number least most (fixedDigits 10 most n ++ cs) = some (n % 10 ^ most, cs) := by
  have hlength := length_fixedDigits 10 most n
  have htake : ((fixedDigits 10 most n ++ cs).take most).takeWhile isDigit =
      fixedDigits 10 most n := by
    rw [List.take_left' hlength, takeWhile_isDigit (isDigit_of_mem_fixedDigits most n)]
  simp only [number, htake, hlength, if_neg (Nat.not_lt.mpr h), List.drop_left' hlength,
    ofDigits_fixedDigits (show 0 < 10 by decide) (show 10 ≤ 16 by decide)]

theorem skipBlanks_run {c : Char} (h : isBlank c = false) (cs : List Char) :
    skipBlanks (c :: cs) = some ((), c :: cs) := by
  rw [skipBlanks, dropBlanks_cons_of_not h]

theorem isBlank_of_isDigit {c : Char} (h : isDigit c = true) : isBlank c = false := by
  simp only [isDigit, Bool.and_eq_true, decide_eq_true_eq] at h
  simp only [isBlank, Bool.or_eq_false_iff, Bool.and_eq_false_iff, beq_eq_false_iff_ne,
    decide_eq_false_iff_not]
  omega

theorem fixedDigits_eq_cons (width n : Nat) :
    ∃ c digits, fixedDigits 10 (width + 1) n = c :: digits ∧ isDigit c = true := by
  cases hdigits : fixedDigits 10 (width + 1) n with
  | nil =>
    have hlength := length_fixedDigits 10 (width + 1) n
    rw [hdigits] at hlength
    cases hlength
  | cons c digits =>
    have hall := isDigit_of_mem_fixedDigits (width + 1) n
    rw [hdigits] at hall
    exact ⟨c, digits, rfl, hall c List.mem_cons_self⟩

theorem skipBlanks_digits (width n : Nat) (cs : List Char) :
    skipBlanks (fixedDigits 10 (width + 1) n ++ cs) =
      some ((), fixedDigits 10 (width + 1) n ++ cs) := by
  obtain ⟨c, digits, hdigits, hc⟩ := fixedDigits_eq_cons width n
  rw [hdigits]
  exact skipBlanks_run (isBlank_of_isDigit hc) _

/-- Without a sign a number of at most this many digits is read. -/
theorem signedNumber_run (width n : Nat) (cs : List Char) :
    signedNumber (width + 1) (fixedDigits 10 (width + 1) n ++ cs) =
      some (((n % 10 ^ (width + 1) : Nat) : Int), cs) := by
  have hnumber := number_run (n := n) (Nat.succ_le_succ (Nat.zero_le width)) cs
  obtain ⟨c, digits, hdigits, hc⟩ := fixedDigits_eq_cons width n
  rw [hdigits] at hnumber ⊢
  unfold signedNumber
  split
  · next heq =>
    obtain ⟨rfl, -⟩ := List.cons.inj heq
    cases hc
  · next heq =>
    obtain ⟨rfl, -⟩ := List.cons.inj heq
    cases hc
  · rw [hnumber]
    rfl

/-- A number of two digits and the character after it. -/
theorem number_char_run {c : Char} (hc : isBlank c = false) (n : Nat) (cs : List Char)
    (next : Nat → Scanner β) :
    (do
      skipBlanks
      let number ← number 1 2
      skipBlanks
      char c
      next number : Scanner β) (fixedDigits 10 2 n ++ c :: cs) = next (n % 10 ^ 2) cs := by
  refine (bind_of (skipBlanks_digits 1 n _)).trans ?_
  refine (bind_of (number_run (by decide) _)).trans ?_
  refine (bind_of (skipBlanks_run hc cs)).trans ?_
  exact bind_of (char_run c cs)

end Text.Scanner

-- ---------------------------------------------------------------------------
-- Fractions
-- ---------------------------------------------------------------------------

theorem Text.ofDigits_append_zeros (cs : List Char) (count : Nat) :
    ofDigits 10 (cs ++ List.replicate count '0') = ofDigits 10 cs * 10 ^ count := by
  induction count with
  | zero => simp
  | succ count ih =>
    rw [List.replicate_succ', ← List.append_assoc, ofDigits_append_singleton, ih, Nat.pow_succ,
      Nat.mul_assoc]
    rfl

namespace Instant

namespace Literal

/-- The digits of a fraction count from its point on. -/
theorem fraction_digits (places n : Nat) (hpos : 0 < places) (hplaces : places ≤ 9) {c : Char}
    (hc : isDigit c = false) (cs : List Char) :
    fraction ('.' :: (fixedDigits 10 places n ++ c :: cs)) =
      some (n % 10 ^ places * 10 ^ (9 - places), c :: cs) := by
  have hlength := length_fixedDigits 10 places n
  have hdigits : (fixedDigits 10 places n ++ c :: cs).takeWhile isDigit =
      fixedDigits 10 places n := by
    rw [List.takeWhile_append_of_pos (isDigit_of_mem_fixedDigits places n),
      List.takeWhile_cons_of_neg (by simp [hc]), List.append_nil]
  have hfilled : (fixedDigits 10 places n ++ List.replicate 9 '0').take 9 =
      fixedDigits 10 places n ++ List.replicate (9 - places) '0' := by
    rw [List.take_append, hlength, List.take_of_length_le (by omega), List.take_replicate]
    congr 2
    omega
  have hne : (fixedDigits 10 places n).isEmpty = false := by
    rw [List.isEmpty_eq_false_iff, ← List.length_pos_iff]
    omega
  simp only [fraction, hdigits, hne, hfilled, ofDigits_append_zeros,
    ofDigits_fixedDigits (show 0 < 10 by decide) (show 10 ≤ 16 by decide),
    List.drop_left, Bool.false_eq_true, ↓reduceIte]

/-- The fraction that is written is read. -/
theorem fraction_written {nanos : Nat} (h : nanos < nanosPerSecond) {c : Char}
    (hdigit : isDigit c = false) (hpoint : c ≠ '.') (cs : List Char) :
    fraction (writtenFraction nanos ++ c :: cs) = some (nanos, c :: cs) := by
  simp only [nanosPerSecond] at h
  unfold writtenFraction
  split_ifs with hzero hmillis hmicros
  · subst hzero
    simp [fraction, hpoint]
  · have hread := fraction_digits 3 (nanos / 1000000) (by decide) (by decide) hdigit cs
    have hvalue : nanos / 1000000 % 10 ^ 3 * 10 ^ (9 - 3) = nanos := by omega
    rw [List.cons_append, hread, hvalue]
  · have hread := fraction_digits 6 (nanos / 1000) (by decide) (by decide) hdigit cs
    have hvalue : nanos / 1000 % 10 ^ 6 * 10 ^ (9 - 6) = nanos := by omega
    rw [List.cons_append, hread, hvalue]
  · have hread := fraction_digits 9 nanos (by decide) (by decide) hdigit cs
    have hvalue : nanos % 10 ^ 9 * 10 ^ (9 - 9) = nanos := by omega
    rw [List.cons_append, hread, hvalue]

-- ---------------------------------------------------------------------------
-- Stamps
-- ---------------------------------------------------------------------------

theorem writtenYear_eq {year : Int} (hlow : 0 ≤ year) (hhigh : year ≤ 9999) :
    writtenYear year = fixedDigits 10 4 year.toNat := by
  rw [writtenYear, if_pos ⟨hlow, hhigh⟩]
  apply paddedNat_eq_fixedDigits
  omega

/-- `Z` stands for no offset. -/
theorem offset_run (gap : Scanner Unit) (cs : List Char) :
    offset gap ('Z' :: cs) = some (0, cs) := rfl

theorem utc_run (cs : List Char) : relaxed.utc ('Z' :: cs) = none := rfl

/-- What is written with every part at its full width is read part by part. -/
theorem relaxed_run {year month day hour minute second nanos : Nat} (hyear : year < 10000)
    (hmonth : month < 100) (hday : day < 100) (hhour : hour < 100) (hminute : minute < 100)
    (hsecond : second < 100) (hnanos : nanos < nanosPerSecond) :
    relaxed (fixedDigits 10 4 year ++ '-' :: (fixedDigits 10 2 month ++ '-' ::
      (fixedDigits 10 2 day ++ 'T' :: (fixedDigits 10 2 hour ++ ':' :: (fixedDigits 10 2 minute ++
        ':' :: (fixedDigits 10 2 second ++ (writtenFraction nanos ++ ['Z']))))))) =
      (atOffset ⟨⟨year, month, day⟩, hour, minute, second, nanos⟩ 0).map (·, []) := by
  have hyear : year % 10 ^ 4 = year := Nat.mod_eq_of_lt hyear
  have hpart {n : Nat} (h : n < 100) : n % 10 ^ 2 = n := Nat.mod_eq_of_lt h
  rw [relaxed]
  refine (Scanner.bind_of (Scanner.skipBlanks_digits 3 year _)).trans ?_
  refine (Scanner.bind_of (Scanner.signedNumber_run 3 year _)).trans ?_
  refine (Scanner.bind_of (Scanner.skipBlanks_run (by decide) _)).trans ?_
  refine (Scanner.bind_of (Scanner.char_run '-' _)).trans ?_
  refine (Scanner.number_char_run (by decide) month _ _).trans ?_
  refine (Scanner.bind_of (Scanner.skipBlanks_digits 1 day _)).trans ?_
  refine (Scanner.bind_of (Scanner.number_run (by decide) _)).trans ?_
  refine (Scanner.bind_of (Scanner.satisfying_run (by decide) _)).trans ?_
  refine (Scanner.number_char_run (by decide) hour _ _).trans ?_
  refine (Scanner.number_char_run (by decide) minute _ _).trans ?_
  refine (Scanner.bind_of (Scanner.skipBlanks_digits 1 second _)).trans ?_
  refine (Scanner.bind_of (Scanner.number_run (by decide) _)).trans ?_
  refine (Scanner.bind_of (fraction_written hnanos (by decide) (by decide) [])).trans ?_
  refine (Scanner.bind_of (Scanner.skipBlanks_run (by decide) [])).trans ?_
  have hoffset := (Scanner.orElse_run_of_none (utc_run [])).trans
    (offset_run (do let _ ← Scanner.run fun c => c == ':' || isBlank c) [])
  refine (Scanner.bind_of hoffset).trans ?_
  refine (Scanner.bind_of (show Scanner.skipBlanks [] = some ((), []) from rfl)).trans ?_
  rw [hyear, hpart hmonth, hpart hday, hpart hhour, hpart hminute, hpart hsecond]
  exact Scanner.lift_run _ []

theorem atOffset_clock (t : Instant) : atOffset t.clock 0 = some t := by
  rw [atOffset, t.instant?_clock]
  change addMinutes? t 0 = some t
  rw [addMinutes?, Int.mul_zero, Int.add_zero, t.of?_self]

end Literal

/-- An instant in a year of four digits, whose form has no sign. -/
def HasFourDigitYear (t : Instant) : Prop := 0 ≤ t.year ∧ t.year ≤ 9999

/-- The form of an instant in a year of four digits is read back as the instant. -/
theorem ofStamp?_rfc3339 {t : Instant} (h : t.HasFourDigitYear) : ofStamp? t.rfc3339 = some t := by
  obtain ⟨hmonth, hday, hhour, hminute, hsecond⟩ := t.clock_bounds
  obtain ⟨hlow, hhigh⟩ := h
  rw [year] at hlow hhigh
  have hnanos : t.clock.nanos < nanosPerSecond := Nat.mod_lt _ (by decide)
  have hyear : t.clock.date.year.toNat < 10000 := by omega
  have hrun := Literal.relaxed_run hyear hmonth hday hhour hminute hsecond hnanos
  have hclock : (⟨⟨(t.clock.date.year.toNat : Int), t.clock.date.month, t.clock.date.day⟩,
      t.clock.hour, t.clock.minute, t.clock.second, t.clock.nanos⟩ : Clock) = t.clock := by
    rw [Int.toNat_of_nonneg hlow]
  rw [hclock, Literal.atOffset_clock] at hrun
  rw [ofStamp?, rfc3339, String.toList_ofList, Date.written, Literal.writtenYear_eq hlow hhigh,
    Clock.writtenTime]
  simp only [List.append_assoc, List.cons_append] at hrun ⊢
  rw [Scanner.whole?, hrun]
  rfl

end Instant

end GuardedSearch
