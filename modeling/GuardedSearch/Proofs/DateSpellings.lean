import GuardedSearch.Proofs.TermReading

/-!
# Spellings of dates

The ways to spell the second of an instant: in RFC 3339 at an offset of whole minutes and with any
fraction, as a date with or without a time of day, and in the compact form. Each is read in the
form that it is meant in, as an instant of that second (`ofLiteral?_of_spells`).
-/

namespace GuardedSearch

open Text Calendar

-- ---------------------------------------------------------------------------
-- Scanning
-- ---------------------------------------------------------------------------

namespace Text.Scanner

variable {α β : Type} {s : Scanner α} {cs rest : List Char} {a : α}

theorem bind_none {f : α → Scanner β} (h : s cs = none) : (s >>= f) cs = none := by
  change (s cs).bind (fun r => f r.1 r.2) = none
  rw [h]
  rfl

theorem whole?_of (h : s cs = some (a, [])) : s.whole? cs = some a := by
  rw [whole?, h]

theorem whole?_none (h : s cs = none) : s.whole? cs = none := by
  rw [whole?, h]

theorem char_none {c d : Char} (h : (d == c) = false) (cs : List Char) : char c (d :: cs) = none :=
  bind_none (if_neg (by simp [h]))

/-- A number of a fixed count of digits and the character after it. -/
theorem digits_char_run (count n : Nat) (c : Char) (cs : List Char) (next : Nat → Scanner β) :
    (do
      let number ← number count count
      char c
      next number : Scanner β) (fixedDigits 10 count n ++ c :: cs) = next (n % 10 ^ count) cs := by
  refine (bind_of (number_run (Nat.le_refl count) _)).trans ?_
  exact bind_of (char_run c cs)

end Text.Scanner

-- ---------------------------------------------------------------------------
-- Spellings
-- ---------------------------------------------------------------------------

/-- `HH:MM:SS` -/
def Clock.writtenSecond (c : Clock) : List Char :=
  fixedDigits 10 2 c.hour ++ ':' :: (fixedDigits 10 2 c.minute ++ ':' :: fixedDigits 10 2 c.second)

namespace Instant

/-- No fraction of a second, or a point and one digit or more. -/
def IsFraction (cs : List Char) : Prop :=
  cs = [] ∨ ∃ digits, digits ≠ [] ∧ (∀ c ∈ digits, isDigit c = true) ∧ cs = '.' :: digits

/-- `+HH:MM` with a sign of its own. -/
def writtenOffset (sign : Char) (hours minutes : Nat) : List Char :=
  sign :: (fixedDigits 10 2 hours ++ ':' :: fixedDigits 10 2 minutes)

/-- How many minutes east of UTC a zone is. -/
inductive SpellsOffset : Int → List Char → Prop
  | utc {letter : Char} : letter = 'Z' ∨ letter = 'z' → SpellsOffset 0 [letter]
  | east {hours minutes : Nat} : hours ≤ 23 → minutes ≤ 59 →
    SpellsOffset (hours * 60 + minutes : Nat) (writtenOffset '+' hours minutes)
  | west {sign : Char} {hours minutes : Nat} : sign = '-' ∨ sign = '−' → hours ≤ 23 →
    minutes ≤ 59 → SpellsOffset (-(hours * 60 + minutes : Nat)) (writtenOffset sign hours minutes)

/-- The spellings of the second of an instant in a year of four digits. In RFC 3339 the year that
an offset leads to has four digits too. -/
inductive Spells (t : Instant) : List Char → Prop
  | stamp {minutes : Int} {shown : Instant} {separator : Char} {fraction zone : List Char} :
    t.addMinutes? minutes = some shown → shown.HasFourDigitYear →
    separator = 'T' ∨ separator = 't' ∨ separator = ' ' → IsFraction fraction →
    SpellsOffset minutes zone →
    Spells t (shown.clock.date.written ++ separator ::
      (shown.clock.writtenSecond ++ (fraction ++ zone)))
  | dateAndTime : Spells t (t.clock.date.written ++ ' ' :: t.clock.writtenSecond)
  | date : t.clock.hour = 0 → t.clock.minute = 0 → t.clock.second = 0 →
    Spells t t.clock.date.written
  | compact : Spells t t.clock.compact

variable {t : Instant}

theorem HasFourDigitYear.fits (h : t.HasFourDigitYear) : t.clock.Fits := by
  obtain ⟨hmonth, hday, hhour, hminute, hsecond⟩ := t.clock_bounds
  exact ⟨h.1, h.2, hmonth, hday, hhour, hminute, hsecond⟩

theorem instant?_withNanos {nanos : Nat} (h : nanos < nanosPerSecond) :
    ({ t.clock with nanos } : Clock).instant? = some (t.withNanos nanos h) := by
  rw [← clock_withNanos (h := h), instant?_clock]

namespace Literal

-- ---------------------------------------------------------------------------
-- Fractions and offsets
-- ---------------------------------------------------------------------------

/-- Any fraction is read, as less than a second. -/
theorem fraction_run {cs : List Char} (h : IsFraction cs) {c : Char} (hdigit : isDigit c = false)
    (hpoint : c ≠ '.') (rest : List Char) :
    ∃ nanos < nanosPerSecond, fraction (cs ++ c :: rest) = some (nanos, c :: rest) := by
  obtain rfl | ⟨digits, hne, hdigits, rfl⟩ := h
  · exact ⟨0, by decide, by simp [fraction, hpoint]⟩
  · have htake : (digits ++ c :: rest).takeWhile isDigit = digits := by
      rw [List.takeWhile_append_of_pos hdigits, List.takeWhile_cons_of_neg (by simp [hdigit]),
        List.append_nil]
    have hfilled : ∀ d ∈ (digits ++ List.replicate 9 '0').take 9, digitValue d < 10 := by
      intro d hd
      rcases List.mem_append.mp (List.mem_of_mem_take hd) with hd | hd
      · exact (digitValue_of_isDigit (hdigits d hd)).1
      · rw [List.eq_of_mem_replicate hd]
        decide
    have hlt := ofDigits_lt hfilled
    have hlength : ((digits ++ List.replicate 9 '0').take 9).length = 9 := by simp
    rw [hlength] at hlt
    refine ⟨_, hlt, ?_⟩
    simp [fraction, htake, hne]

/-- A sign, hours and minutes are read as what they say, less than a day. -/
theorem offset_written {sign : Char} (hsign : sign = '+' ∨ sign = '-' ∨ sign = '−')
    {hours minutes : Nat} (hhours : hours ≤ 23) (hminutes : minutes ≤ 59) :
    offset (Scanner.char ':') (writtenOffset sign hours minutes) =
      some (if sign == '+' then ((hours * 60 + minutes : Nat) : Int)
        else -((hours * 60 + minutes : Nat) : Int), []) := by
  have hpart {n : Nat} (h : n ≤ 59) : n % 10 ^ 2 = n := Nat.mod_eq_of_lt (by omega)
  have hbelow : (decide (59 < minutes) || decide (1440 ≤ hours * 60 + minutes)) = false := by
    simp only [Bool.or_eq_false_iff, decide_eq_false_iff_not]
    omega
  have hzone : (sign == 'Z' || sign == 'z') = false ∧
      (sign == 'Z' || sign == 'z' || sign == '+' || sign == '-' || sign == '−') = true := by
    rcases hsign with rfl | rfl | rfl <;> decide
  have hend := Scanner.number_run (n := minutes) (show 2 ≤ 2 by decide) []
  rw [List.append_nil, hpart hminutes] at hend
  rw [offset, writtenOffset]
  refine (Scanner.bind_of (Scanner.satisfying_run hzone.2 _)).trans ?_
  simp only [hzone.1, Bool.false_eq_true, ↓reduceIte]
  refine (Scanner.bind_of (Scanner.number_run (by decide) _)).trans ?_
  refine (Scanner.bind_of (Scanner.char_run ':' _)).trans ?_
  refine (Scanner.bind_of hend).trans ?_
  simp only [hpart (show hours ≤ 59 by omega), hbelow, Bool.false_eq_true, ↓reduceIte]
  rfl

theorem offset_spelled {minutes : Int} {zone : List Char} (h : SpellsOffset minutes zone) :
    offset (Scanner.char ':') zone = some (minutes, []) := by
  cases h with
  | utc hletter => rcases hletter with rfl | rfl <;> rfl
  | east hhours hminutes => exact offset_written (.inl rfl) hhours hminutes
  | west hsign hhours hminutes =>
    rw [offset_written (.inr hsign) hhours hminutes]
    rcases hsign with rfl | rfl <;> rfl

/-- A zone begins with what no number or fraction goes on with. -/
theorem exists_of_spellsOffset {minutes : Int} {zone : List Char} (h : SpellsOffset minutes zone) :
    ∃ c cs, zone = c :: cs ∧ isDigit c = false ∧ c ≠ '.' := by
  cases h with
  | utc hletter => rcases hletter with rfl | rfl <;> exact ⟨_, _, rfl, by decide, by decide⟩
  | east hhours hminutes => exact ⟨_, _, rfl, by decide, by decide⟩
  | west hsign hhours hminutes =>
    rcases hsign with rfl | rfl <;> exact ⟨_, _, rfl, by decide, by decide⟩

-- ---------------------------------------------------------------------------
-- Forms
-- ---------------------------------------------------------------------------

section
variable {c : Clock}

theorem written_eq (h : c.Fits) : c.date.written = fixedDigits 10 4 c.date.year.toNat ++
    '-' :: (fixedDigits 10 2 c.date.month ++ '-' :: fixedDigits 10 2 c.date.day) := by
  rw [Date.written, writtenYear_eq h.year_nonneg h.year_le, List.append_assoc]
  rfl

/-- The date and the time of day in RFC 3339 are read, and then the fraction and the offset. -/
theorem strict_run (h : c.Fits) {separator : Char}
    (hseparator : separator = 'T' ∨ separator = 't' ∨ separator = ' ') (cs : List Char) :
    strict (c.date.written ++ separator :: (c.writtenSecond ++ cs)) =
      (do
        let nanos ← fraction
        let minutesEast ← offset (Scanner.char ':')
        atOffset { c with nanos } minutesEast : Scanner Instant) cs := by
  have hsep : (separator == 'T' || separator == 't' || separator == ' ') = true := by
    rcases hseparator with rfl | rfl | rfl <;> decide
  rw [strict, written_eq h, Clock.writtenSecond]
  simp only [List.append_assoc, List.cons_append]
  refine (Scanner.digits_char_run 4 _ '-' _ _).trans ?_
  refine (Scanner.digits_char_run 2 _ '-' _ _).trans ?_
  refine (Scanner.bind_of (Scanner.number_run (by decide) _)).trans ?_
  refine (Scanner.bind_of (Scanner.satisfying_run hsep _)).trans ?_
  refine (Scanner.digits_char_run 2 _ ':' _ _).trans ?_
  refine (Scanner.digits_char_run 2 _ ':' _ _).trans ?_
  refine (Scanner.bind_of (Scanner.number_run (by decide) _)).trans ?_
  rw [mod_toNat_year h, mod_of_lt h.month_lt, mod_of_lt h.day_lt, mod_of_lt h.hour_lt,
    mod_of_lt h.minute_lt, mod_of_lt h.second_lt]

theorem strict_stamp (h : c.Fits) {separator : Char}
    (hseparator : separator = 'T' ∨ separator = 't' ∨ separator = ' ') {cs zone : List Char}
    {nanos : Nat} {minutes : Int} (hfraction : fraction (cs ++ zone) = some (nanos, zone))
    (hzone : SpellsOffset minutes zone) :
    strict (c.date.written ++ separator :: (c.writtenSecond ++ (cs ++ zone))) =
      (atOffset { c with nanos } minutes).map (·, []) := by
  rw [strict_run h hseparator]
  refine (Scanner.bind_of hfraction).trans ?_
  refine (Scanner.bind_of (offset_spelled hzone)).trans ?_
  exact Scanner.lift_run _ []

theorem strict_dateAndTime (h : c.Fits) :
    strict (c.date.written ++ ' ' :: c.writtenSecond) = none := by
  have hrun := strict_run h (.inr (.inr rfl)) []
  rw [List.append_nil] at hrun
  exact hrun

theorem strict_date (h : c.Fits) : strict c.date.written = none := by
  have hend := Scanner.number_run (n := c.date.day) (show 2 ≤ 2 by decide) []
  rw [List.append_nil] at hend
  rw [strict, written_eq h]
  refine (Scanner.digits_char_run 4 _ '-' _ _).trans ?_
  refine (Scanner.digits_char_run 2 _ '-' _ _).trans ?_
  refine (Scanner.bind_of hend).trans ?_
  exact Scanner.bind_none rfl

/-- In the compact form no dash follows the year. -/
theorem char_compact (c : Clock) : ∃ cs, c.compact = fixedDigits 10 4 c.date.year.toNat ++ cs ∧
    Scanner.char '-' cs = none := by
  obtain ⟨d, digits, hdigits, hd⟩ := Scanner.fixedDigits_eq_cons 1 c.date.month
  have hdash : (d == '-') = false := by
    rw [beq_eq_false_iff_ne]
    rintro rfl
    cases hd
  rw [Clock.compact, hdigits]
  simp only [List.append_assoc, List.cons_append]
  exact ⟨_, rfl, Scanner.char_none hdash _⟩

theorem strict_compact (c : Clock) : strict c.compact = none := by
  obtain ⟨cs, hcs, hdash⟩ := char_compact c
  rw [hcs, strict]
  refine (Scanner.bind_of (Scanner.number_run (by decide) _)).trans ?_
  exact Scanner.bind_none hdash

theorem date_compact (c : Clock) : date c.compact = none := by
  obtain ⟨cs, hcs, hdash⟩ := char_compact c
  rw [hcs, date]
  refine (Scanner.bind_of (Scanner.skipBlanks_digits 3 _ _)).trans ?_
  refine (Scanner.bind_of (Scanner.signedNumber_run 3 _ _)).trans ?_
  exact Scanner.bind_none hdash

theorem date_run (h : c.Fits) (cs : List Char) :
    date (c.date.written ++ cs) = some (c.date, cs) := by
  rw [date, written_eq h]
  simp only [List.append_assoc, List.cons_append]
  refine (Scanner.bind_of (Scanner.skipBlanks_digits 3 _ _)).trans ?_
  refine (Scanner.bind_of (Scanner.signedNumber_run 3 _ _)).trans ?_
  refine (Scanner.bind_of (Scanner.char_run '-' _)).trans ?_
  refine (Scanner.bind_of (Scanner.skipBlanks_digits 1 _ _)).trans ?_
  refine (Scanner.bind_of (Scanner.number_run (by decide) _)).trans ?_
  refine (Scanner.bind_of (Scanner.char_run '-' _)).trans ?_
  refine (Scanner.bind_of (Scanner.skipBlanks_digits 1 _ _)).trans ?_
  refine (Scanner.bind_of (Scanner.number_run (by decide) _)).trans ?_
  rw [mod_toNat_year h, mod_of_lt h.month_lt, mod_of_lt h.day_lt]
  rfl

theorem time_run (h : c.Fits) :
    time (' ' :: c.writtenSecond) = some ((c.hour, c.minute, c.second), []) := by
  have hblank : Scanner.skipBlanks (' ' :: c.writtenSecond) = some ((), c.writtenSecond) :=
    Scanner.skipBlanks_digits 1 _ _
  have hend := Scanner.number_run (n := c.second) (show 1 ≤ 2 by decide) []
  have hbegin := Scanner.skipBlanks_digits 1 c.second []
  rw [List.append_nil] at hend hbegin
  rw [time]
  refine (Scanner.bind_of hblank).trans ?_
  refine (Scanner.bind_of (Scanner.number_run (by decide) _)).trans ?_
  refine (Scanner.bind_of (Scanner.char_run ':' _)).trans ?_
  refine (Scanner.bind_of (Scanner.skipBlanks_digits 1 _ _)).trans ?_
  refine (Scanner.bind_of (Scanner.number_run (by decide) _)).trans ?_
  refine (Scanner.bind_of (Scanner.char_run ':' _)).trans ?_
  refine (Scanner.bind_of hbegin).trans ?_
  refine (Scanner.bind_of hend).trans ?_
  rw [mod_of_lt h.hour_lt, mod_of_lt h.minute_lt, mod_of_lt h.second_lt]
  rfl

theorem dateAndTime_run (h : c.Fits) : dateAndTime (c.date.written ++ ' ' :: c.writtenSecond) =
    ({ c with nanos := 0 } : Clock).instant?.map (·, []) := by
  rw [dateAndTime]
  refine (Scanner.bind_of (date_run h _)).trans ?_
  refine (Scanner.bind_of (time_run h)).trans ?_
  exact Scanner.lift_run _ []

theorem dateAndTime_date (h : c.Fits) : dateAndTime c.date.written = none := by
  have hdate := date_run h []
  rw [List.append_nil] at hdate
  rw [dateAndTime]
  refine (Scanner.bind_of hdate).trans ?_
  exact Scanner.bind_none rfl

theorem midnight_run (h : c.Fits) : midnight c.date.written =
    (⟨c.date, 0, 0, 0, 0⟩ : Clock).instant?.map (·, []) := by
  have hdate := date_run h []
  rw [List.append_nil] at hdate
  rw [midnight]
  refine (Scanner.bind_of hdate).trans ?_
  exact Scanner.lift_run _ []

end

theorem atOffset_run {t shown : Instant} {minutes : Int} (h : t.addMinutes? minutes = some shown)
    {nanos : Nat} (hnanos : nanos < nanosPerSecond) :
    atOffset { shown.clock with nanos } minutes = some (t.withNanos nanos hnanos) := by
  obtain ⟨hseconds, hsame⟩ := of?_eq_some_iff.mp h
  have hleap : shown.isLeapSecond = t.isLeapSecond := by rw [isLeapSecond, hsame, isLeapSecond]
  rw [atOffset, instant?_withNanos hnanos]
  refine of?_eq_some_iff.mpr ⟨?_, ?_⟩
  · simp only [withNanos, hseconds]
    omega
  · simp only [withNanos, hleap]

end Literal

-- ---------------------------------------------------------------------------
-- Dates
-- ---------------------------------------------------------------------------

/-- No form is taken for one that is tried before it, and each is read as an instant of the second
that it spells. -/
theorem ofLiteral?_of_spells (hyear : t.HasFourDigitYear) {cs : List Char} (h : t.Spells cs) :
    ∃ nanos, ∃ hnanos : nanos < nanosPerSecond,
      ofLiteral? cs = some (t.withNanos nanos hnanos) := by
  have hfits := hyear.fits
  rw [ofLiteral?]
  cases h with
  | stamp hshown hshownYear hseparator hfraction hzone =>
    obtain ⟨c, rest, rfl, hdigit, hpoint⟩ := Literal.exists_of_spellsOffset hzone
    obtain ⟨nanos, hnanos, hread⟩ := Literal.fraction_run hfraction hdigit hpoint rest
    have hstrict := Literal.strict_stamp hshownYear.fits hseparator hread hzone
    rw [Literal.atOffset_run hshown hnanos] at hstrict
    refine ⟨nanos, hnanos, ?_⟩
    rw [Scanner.whole?_of hstrict]
    rfl
  | dateAndTime =>
    have hread := Literal.dateAndTime_run hfits
    rw [instant?_withNanos (by decide)] at hread
    refine ⟨0, by decide, ?_⟩
    rw [Scanner.whole?_none (Literal.strict_dateAndTime hfits), Scanner.whole?_of hread]
    rfl
  | date hhour hminute hsecond =>
    have hclock : (⟨t.clock.date, 0, 0, 0, 0⟩ : Clock) = { t.clock with nanos := 0 } := by
      simp [hhour, hminute, hsecond]
    have hread := Literal.midnight_run hfits
    rw [hclock, instant?_withNanos (by decide)] at hread
    refine ⟨0, by decide, ?_⟩
    rw [Scanner.whole?_none (Literal.strict_date hfits),
      Scanner.whole?_none (Literal.dateAndTime_date hfits), Scanner.whole?_of hread]
    rfl
  | compact =>
    refine ⟨0, by decide, ?_⟩
    have hdate := Literal.date_compact t.clock
    rw [Scanner.whole?_none (Literal.strict_compact t.clock), Literal.dateAndTime,
      Scanner.whole?_none (Scanner.bind_none hdate), Literal.midnight,
      Scanner.whole?_none (Scanner.bind_none hdate), ofCompact?_compact hfits,
      instant?_withNanos (by decide)]
    rfl

end Instant

end GuardedSearch
