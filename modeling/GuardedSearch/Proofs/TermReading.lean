import GuardedSearch.Proofs.CalendarDates
import GuardedSearch.Proofs.Stamps
import GuardedSearch.Proofs.TermOrder
import Mathlib.Algebra.Group.Nat.Defs

/-!
# Terms that are read back

The terms of integers and of dates are read by functions of their own. `reads_written` says for
each type which texts are read and as what, and that reading and writing are inverse to each
other: on all values, and on the texts that are written.
-/

namespace GuardedSearch

open Text

-- ---------------------------------------------------------------------------
-- Integers
-- ---------------------------------------------------------------------------

namespace Term

/-- Hexadecimal digits in either case, and at least one. -/
def IsHexadecimal (text : String) : Prop :=
  text.toList ≠ [] ∧ ∀ c ∈ text.toList, isHexDigit c = true

def hexValue (text : String) : Nat := ofDigits 16 text.toList

/-- Integers are written with `width` hexadecimal digits, shifted by half of what these can count
to. They are read from any hexadecimal digits that stand for such a number, so there may be more
zeros in front, or fewer, and capital letters. -/
structure IsHexForm {α : Type} (width : Nat) (toInt : α → Int) (write : α → String)
    (read : String → Except FormatError α) : Prop where
  reads : ∀ text v, read text = .ok v ↔ IsHexadecimal text ∧ hexValue text < 2 ^ (4 * width) ∧
    toInt v = hexValue text - 2 ^ (4 * width - 1)
  refuses : ∀ text, ¬ IsHexadecimal text → read text = .error (.notHexadecimal text)
  overflows : ∀ text, IsHexadecimal text → 2 ^ (4 * width) ≤ hexValue text →
    read text = .error (if hexValue text < 2 ^ 64 then .int32OutOfRange text
      else .hexadecimalTooLarge text)
  read_write : ∀ v, read (write v) = .ok v
  write_read : ∀ text v, read text = .ok v → (write v = text ↔
    text.length = width ∧ ∀ c ∈ text.toList, isLowerHexDigit c = true)

variable {text : String}

theorem readHex_of_not (h : ¬ IsHexadecimal text) :
    readHex text = .error (.notHexadecimal text) := by
  rw [readHex]
  refine if_pos ?_
  simp only [IsHexadecimal, not_and_or, not_not, not_forall] at h
  rcases h with hnil | ⟨c, hc, hnot⟩
  · simp [hnil]
  · rw [Bool.or_eq_true, Bool.not_eq_true', List.all_eq_false]
    exact .inr ⟨c, hc, hnot⟩

theorem readHex_of (h : IsHexadecimal text) : readHex text =
    if hexValue text < 2 ^ 64 then .ok (hexValue text)
    else .error (.hexadecimalTooLarge text) := by
  rw [readHex]
  refine if_neg ?_
  simpa [IsHexadecimal] using h

theorem isHexadecimal_fixedDigits {width : Nat} (h : 0 < width) (n : Nat) :
    IsHexadecimal (String.ofList (fixedDigits 16 width n)) := by
  rw [IsHexadecimal, String.toList_ofList]
  refine ⟨List.ne_nil_of_length_pos (by rwa [length_fixedDigits]), fun c hc => ?_⟩
  exact isHexDigit_of_isLowerHexDigit (isLowerHexDigit_of_mem_fixedDigits width n c hc)

theorem hexValue_fixedDigits (width n : Nat) :
    hexValue (String.ofList (fixedDigits 16 width n)) = n % 16 ^ width := by
  rw [hexValue, String.toList_ofList]
  exact ofDigits_fixedDigits (by decide) (by decide) width n

/-- Digits are written again just when there are as many as are written, without capitals. -/
theorem fixedDigits_hexValue_iff (h : IsHexadecimal text) {width : Nat} :
    String.ofList (fixedDigits 16 width (hexValue text)) = text ↔
      text.length = width ∧ ∀ c ∈ text.toList, isLowerHexDigit c = true := by
  constructor
  · intro heq
    rw [← heq, String.length_ofList, length_fixedDigits, String.toList_ofList]
    exact ⟨rfl, isLowerHexDigit_of_mem_fixedDigits width _⟩
  · rintro ⟨rfl, hlower⟩
    rw [← String.length_toList, hexValue, fixedDigits_ofDigits, String.ofList_toList]
    intro c hc
    have hhex := h.2 c hc
    exact ⟨digitValue_lt_of_isHexDigit hhex, (digitChar_digitValue_iff hhex).mpr (hlower c hc)⟩

section HexForm

variable {α : Type} {width : Nat} {toInt : α → Int} {write : α → String}
  {read : String → Except FormatError α}

/-- A form of integers that differ as numbers, that are written as their shifted numbers, and of
which each shifted number in range is read as one. -/
theorem isHexForm_of (hwidth : 0 < width) (hinj : ∀ v w, toInt v = toInt w → v = w)
    (hrange : ∀ v, 0 ≤ toInt v + 2 ^ (4 * width - 1) ∧
      toInt v + 2 ^ (4 * width - 1) < 2 ^ (4 * width))
    (hwrite : ∀ v, write v =
      String.ofList (fixedDigits 16 width (toInt v + 2 ^ (4 * width - 1)).toNat))
    (hread : ∀ text, IsHexadecimal text → hexValue text < 2 ^ (4 * width) →
      ∃ v, read text = .ok v ∧ toInt v = hexValue text - 2 ^ (4 * width - 1))
    (hrefuses : ∀ text, ¬ IsHexadecimal text → read text = .error (.notHexadecimal text))
    (hoverflows : ∀ text, IsHexadecimal text → 2 ^ (4 * width) ≤ hexValue text →
      read text = .error (if hexValue text < 2 ^ 64 then .int32OutOfRange text
        else .hexadecimalTooLarge text)) : IsHexForm width toInt write read := by
  have hreads : ∀ text v, read text = .ok v ↔ IsHexadecimal text ∧
      hexValue text < 2 ^ (4 * width) ∧ toInt v = hexValue text - 2 ^ (4 * width - 1) := by
    intro text v
    constructor
    · intro h
      by_cases hhex : IsHexadecimal text
      · by_cases hlt : hexValue text < 2 ^ (4 * width)
        · obtain ⟨w, hw, hvalue⟩ := hread text hhex hlt
          obtain rfl := Except.ok.inj (hw.symm.trans h)
          exact ⟨hhex, hlt, hvalue⟩
        · rw [hoverflows text hhex (Nat.le_of_not_lt hlt)] at h
          cases h
      · rw [hrefuses text hhex] at h
        cases h
    · rintro ⟨hhex, hlt, hvalue⟩
      obtain ⟨w, hw, hvalue'⟩ := hread text hhex hlt
      rwa [hinj v w (hvalue.trans hvalue'.symm)]
  refine ⟨hreads, hrefuses, hoverflows, fun v => ?_, fun text v h => ?_⟩
  · obtain ⟨hnonneg, hlt⟩ := hrange v
    have hsize : 16 ^ width = 2 ^ (4 * width) := (Nat.pow_mul 2 4 width).symm
    have hfits : (toInt v + 2 ^ (4 * width - 1)).toNat < 16 ^ width := by
      rw [hsize, Int.toNat_lt hnonneg]
      exact_mod_cast hlt
    rw [hreads, hwrite, hexValue_fixedDigits, Nat.mod_eq_of_lt hfits, ← hsize,
      Int.toNat_of_nonneg hnonneg, Int.add_sub_cancel]
    exact ⟨isHexadecimal_fixedDigits hwidth _, hfits, rfl⟩
  · obtain ⟨hhex, -, hvalue⟩ := (hreads text v).mp h
    rw [hwrite, hvalue, Int.sub_add_cancel, Int.toNat_natCast]
    exact fixedDigits_hexValue_iff hhex

end HexForm

theorem int32_isHexForm : IsHexForm 8 Int32.toInt ofInt32 toInt32 := by
  refine isHexForm_of (by decide) (fun v w => Int32.toInt_inj.mp) (fun v => ?_) (fun v => rfl)
    (fun text hhex hlt => ?_) (fun text hhex => ?_) (fun text hhex hle => ?_)
  · have := Int32.le_toInt v
    have := Int32.toInt_lt v
    omega
  · have hvalue : (Int32.ofInt (hexValue text - Word.shift32)).toInt =
        hexValue text - 2 ^ (4 * 8 - 1) := by
      rw [Int32.toInt_ofInt_of_le] <;> simp only [Word.shift32] <;> omega
    refine ⟨_, ?_, hvalue⟩
    rw [toInt32, readHex_of hhex, if_pos (by omega)]
    exact if_pos hlt
  · rw [toInt32, readHex_of_not hhex]
    rfl
  · rw [toInt32, readHex_of hhex]
    by_cases hword : hexValue text < 2 ^ 64
    · rw [if_pos hword, if_pos hword]
      exact if_neg (Nat.not_lt.mpr hle)
    · rw [if_neg hword, if_neg hword]
      rfl

theorem int64_isHexForm : IsHexForm 16 Int64.toInt ofInt64 toInt64 := by
  refine isHexForm_of (by decide) (fun v w => Int64.toInt_inj.mp) (fun v => ?_) (fun v => rfl)
    (fun text hhex hlt => ?_) (fun text hhex => ?_) (fun text hhex hle => ?_)
  · have := Int64.le_toInt v
    have := Int64.toInt_lt v
    omega
  · have hvalue : (Int64.ofInt (hexValue text - Word.shift64)).toInt =
        hexValue text - 2 ^ (4 * 16 - 1) := by
      rw [Int64.toInt_ofInt_of_le] <;> simp only [Word.shift64] <;> omega
    refine ⟨_, ?_, hvalue⟩
    rw [toInt64, readHex_of hhex, if_pos hlt]
    rfl
  · rw [toInt64, readHex_of_not hhex]
    rfl
  · have hword : ¬ hexValue text < 2 ^ 64 := Nat.not_lt.mpr hle
    rw [toInt64, readHex_of hhex, if_neg hword, if_neg hword]
    rfl

-- ---------------------------------------------------------------------------
-- Words
-- ---------------------------------------------------------------------------

/-- A text read as an `Int32` in signed words of 64 bits, into which the number is taken modulo
2^64: none if the shift goes below the least of them. -/
def toInt32InWords? (text : String) : Option (Except FormatError Int32) :=
  match readHex text with
  | .error cause => some (.error cause)
  | .ok n => (Word.int64? ((Int64.ofNat n).toInt - Word.shift32)).map fun shifted =>
    match Word.int32? shifted.toInt with
    | some v => .ok v
    | none => .error (.int32OutOfRange text)

/-- The numbers whose signed word is less than 2^31 above the least. -/
def ShiftsBelow (text : String) : Prop :=
  IsHexadecimal text ∧ 0x8000000000000000 ≤ hexValue text ∧ hexValue text ≤ 0x800000007fffffff

theorem toInt_ofNat_word {n : Nat} (h : n < 2 ^ 64) : (Int64.ofNat n).toInt =
    if n < 2 ^ 63 then (n : Int) else n - 2 ^ 64 := by
  rw [Int64.toInt_ofNat', Int.bmod_def]
  simp only [Int64.size]
  split <;> split <;> omega

/-- A shifted number that fits into a word is read in words as without a bound. -/
theorem toInt32InWords?_of_fits (hhex : IsHexadecimal text) (hword : hexValue text < 2 ^ 64)
    {w : Int64} (hw : w.toInt = (Int64.ofNat (hexValue text)).toInt - Word.shift32) :
    toInt32InWords? text = some (toInt32 text) := by
  rw [toInt_ofNat_word hword] at hw
  have hfits := Word.int64?_eq_some_iff.mpr hw
  rw [← toInt_ofNat_word hword] at hfits
  rw [toInt32InWords?, toInt32, readHex_of hhex, if_pos hword]
  simp only [hfits, Option.map_some]
  congr 1
  by_cases hlt : hexValue text < Word.size32
  · have hvalue : (Int32.ofInt (hexValue text - Word.shift32)).toInt = w.toInt := by
      simp only [Word.size32, Word.shift32] at *
      rw [Int32.toInt_ofInt_of_le] <;> split at hw <;> omega
    rw [Word.int32?_eq_some_iff.mpr hvalue]
    exact (if_pos hlt).symm
  · have hnone : Word.int32? w.toInt = none := by
      refine if_neg fun hrange => ?_
      simp only [Word.size32, Word.shift32] at *
      split at hw <;> omega
    rw [hnone]
    exact (if_neg hlt).symm

/-- In words the shift fails just for the numbers that are too near to the least, and otherwise
the text is read as without a bound. -/
theorem toInt32InWords?_cases (text : String) :
    (toInt32InWords? text = none ∧ ShiftsBelow text) ∨
      (toInt32InWords? text = some (toInt32 text) ∧ ¬ ShiftsBelow text) := by
  by_cases hhex : IsHexadecimal text
  · by_cases hword : hexValue text < 2 ^ 64
    · cases hshifted : Word.int64? ((Int64.ofNat (hexValue text)).toInt - Word.shift32) with
      | none =>
        refine .inl ⟨?_, hhex, ?_⟩
        · rw [toInt32InWords?, readHex_of hhex, if_pos hword]
          simp only [hshifted, Option.map_none]
        · have hout := Word.int64?_eq_none_iff.mp hshifted
          rw [toInt_ofNat_word hword] at hout
          simp only [Word.shift32, Word.shift64] at hout
          split at hout <;> omega
      | some w =>
        have hw := Word.int64?_eq_some_iff.mp hshifted
        have hle := Int64.le_toInt w
        refine .inr ⟨toInt32InWords?_of_fits hhex hword hw, fun hbelow => ?_⟩
        obtain ⟨-, hlow, hhigh⟩ := hbelow
        rw [toInt_ofNat_word hword] at hw
        simp only [Word.shift32] at hw
        split at hw <;> omega
    · rw [toInt32InWords?, toInt32, readHex_of hhex, if_neg hword, ShiftsBelow]
      exact .inr ⟨rfl, fun h => by omega⟩
  · rw [toInt32InWords?, toInt32, readHex_of_not hhex]
    exact .inr ⟨rfl, fun h => hhex h.1⟩

end Term

-- ---------------------------------------------------------------------------
-- Dates
-- ---------------------------------------------------------------------------

namespace Clock

/-- The clock that fourteen digits show: four of the year, and two of each other part. -/
def ofCompact (cs : List Char) : Clock where
  date := ⟨ofDigits 10 (cs.take 4), ofDigits 10 ((cs.drop 4).take 2),
    ofDigits 10 ((cs.drop 6).take 2)⟩
  hour := ofDigits 10 ((cs.drop 8).take 2)
  minute := ofDigits 10 ((cs.drop 10).take 2)
  second := ofDigits 10 ((cs.drop 12).take 2)
  nanos := 0

variable {cs : List Char} {c : Clock}

theorem ofDigits_part (hdigits : ∀ c ∈ cs, isDigit c = true) {start width : Nat}
    (h : start + width ≤ cs.length) :
    fixedDigits 10 width (ofDigits 10 ((cs.drop start).take width)) = (cs.drop start).take width ∧
      ofDigits 10 ((cs.drop start).take width) < 10 ^ width := by
  have hlength : ((cs.drop start).take width).length = width := by
    rw [List.length_take, List.length_drop]
    omega
  have hpart : ∀ c ∈ (cs.drop start).take width, isDigit c = true := fun c hc =>
    hdigits c (List.mem_of_mem_drop (List.mem_of_mem_take hc))
  have hwritten := fixedDigits_ofDigits_decimal hpart
  have hlt := ofDigits_decimal_lt hpart
  rw [hlength] at hwritten hlt
  exact ⟨hwritten, hlt⟩

theorem ofCompact_fits (hlength : cs.length = 14) (hdigits : ∀ c ∈ cs, isDigit c = true) :
    (ofCompact cs).Fits := by
  have part {start width : Nat} (h : start + width ≤ 14) :=
    (ofDigits_part hdigits (hlength ▸ h : start + width ≤ cs.length)).2
  have hyear := part (show 0 + 4 ≤ 14 by decide)
  rw [List.drop_zero] at hyear
  refine ⟨?_, ?_, part (by decide), part (by decide), part (by decide), part (by decide),
    part (by decide)⟩
  · simp only [ofCompact]
    omega
  · simp only [ofCompact]
    omega

/-- Fourteen digits are the compact form of the clock that they show. -/
theorem compact_ofCompact (hlength : cs.length = 14) (hdigits : ∀ c ∈ cs, isDigit c = true) :
    (ofCompact cs).compact = cs := by
  have part {start width : Nat} (h : start + width ≤ 14) :=
    (ofDigits_part hdigits (hlength ▸ h : start + width ≤ cs.length)).1
  have hyear := part (show 0 + 4 ≤ 14 by decide)
  rw [List.drop_zero] at hyear
  simp only [compact, ofCompact, Int.toNat_natCast, hyear, part (show 4 + 2 ≤ 14 by decide),
    part (show 6 + 2 ≤ 14 by decide), part (show 8 + 2 ≤ 14 by decide),
    part (show 10 + 2 ≤ 14 by decide), part (show 12 + 2 ≤ 14 by decide), ← List.take_add]
  exact List.take_of_length_le (by omega)

theorem length_compact (c : Clock) : c.compact.length = 14 := by
  simp only [compact, List.length_append, length_fixedDigits]

theorem isDigit_of_mem_compact (c : Clock) : ∀ d ∈ c.compact, isDigit d = true := by
  simp only [compact, List.forall_mem_append]
  have hdigits := isDigit_of_mem_fixedDigits
  exact ⟨⟨⟨⟨⟨hdigits _ _, hdigits _ _⟩, hdigits _ _⟩, hdigits _ _⟩, hdigits _ _⟩, hdigits _ _⟩

end Clock

namespace Instant

theorem Literal.mod_toNat_year {c : Clock} (h : c.Fits) :
    ((c.date.year.toNat % 10 ^ 4 : Nat) : Int) = c.date.year := by
  have := h.year_nonneg
  have := h.year_le
  omega

theorem Literal.mod_of_lt {n : Nat} (h : n < 100) : n % 10 ^ 2 = n := Nat.mod_eq_of_lt h

theorem Literal.compact_run {c : Clock} (h : c.Fits) :
    Literal.compact c.compact = ({ c with nanos := 0 } : Clock).instant?.map (·, []) := by
  have hend := Scanner.number_run (n := c.second) (show 2 ≤ 2 by decide) []
  rw [List.append_nil] at hend
  simp only [Clock.compact, List.append_assoc]
  rw [Literal.compact]
  refine (Scanner.bind_of (Scanner.number_run (by decide) _)).trans ?_
  refine (Scanner.bind_of (Scanner.number_run (by decide) _)).trans ?_
  refine (Scanner.bind_of (Scanner.number_run (by decide) _)).trans ?_
  refine (Scanner.bind_of (Scanner.number_run (by decide) _)).trans ?_
  refine (Scanner.bind_of (Scanner.number_run (by decide) _)).trans ?_
  refine (Scanner.bind_of hend).trans ?_
  rw [mod_toNat_year h, mod_of_lt h.month_lt, mod_of_lt h.day_lt, mod_of_lt h.hour_lt,
    mod_of_lt h.minute_lt, mod_of_lt h.second_lt]
  exact Scanner.lift_run _ []

/-- The compact form of a clock is read as the whole second that it shows. -/
theorem ofCompact?_compact {c : Clock} (h : c.Fits) :
    ofCompact? c.compact = ({ c with nanos := 0 } : Clock).instant? := by
  rw [ofCompact?, Scanner.whole?, Literal.compact_run h]
  cases ({ c with nanos := 0 } : Clock).instant? <;> rfl

end Instant

namespace Term

variable {text : String} {t : Instant}

/-- Fourteen digits that form a date and a time of day that exist. -/
structure ShowsTime (text : String) : Prop where
  length_eq : text.length = 14
  digits : ∀ c ∈ text.toList, isDigit c = true
  time : (Clock.ofCompact text.toList).IsTime

/-- Dates in years of four digits are written with fourteen digits, without what is below the
second, and read from those that form a date and a time of day, in which the second may be 60. -/
structure IsDateForm (write : Instant → Except FormatError String)
    (read : String → Except FormatError Instant) : Prop where
  reads : ∀ text t, read text = .ok t ↔
    ShowsTime text ∧ t.clock = Clock.ofCompact text.toList
  accepts : ∀ text, (∃ t, read text = .ok t) ↔ ShowsTime text
  refuses : ∀ text, ¬ ShowsTime text →
    read text = .error (.notEncodedDate text) ∨ read text = .error (.noSuchDate text)
  read_write : ∀ t : Instant, 0 ≤ t.year → t.year ≤ 9999 →
    ∃ text, write t = .ok text ∧ read text = .ok t.wholeSecond
  write_read : ∀ text t, read text = .ok t → write t = .ok text

theorem toInstant_of_digits (hlength : text.length = 14)
    (hdigits : ∀ c ∈ text.toList, isDigit c = true) : toInstant text =
      match (Clock.ofCompact text.toList).instant? with
      | some t => .ok t
      | none => .error (.noSuchDate text) := by
  rw [← String.length_toList] at hlength
  have hread := Instant.ofCompact?_compact (Clock.ofCompact_fits hlength hdigits)
  rw [Clock.compact_ofCompact hlength hdigits] at hread
  rw [toInstant]
  refine (if_neg ?_).trans ?_
  · simpa [hlength] using hdigits
  · rw [hread]
    rfl

theorem toInstant_of_not (h : ¬ (text.length = 14 ∧ ∀ c ∈ text.toList, isDigit c = true)) :
    toInstant text = .error (.notEncodedDate text) := by
  rw [toInstant]
  refine if_pos ?_
  rw [← String.length_toList] at h
  by_contra hnot
  simp only [not_or, not_not, Bool.not_eq_true', Bool.not_eq_false, List.all_eq_true] at hnot
  exact h hnot

theorem toInstant_eq_ok_iff : toInstant text = .ok t ↔
    ShowsTime text ∧ t.clock = Clock.ofCompact text.toList := by
  by_cases h : text.length = 14 ∧ ∀ c ∈ text.toList, isDigit c = true
  · rw [toInstant_of_digits h.1 h.2, ← Clock.instant?_eq_some_iff]
    constructor
    · intro hread
      split at hread
      · next u hu =>
        obtain rfl := Except.ok.inj hread
        exact ⟨⟨h.1, h.2, Clock.isTime_of_instant? hu⟩, hu⟩
      · cases hread
    · rintro ⟨-, ht⟩
      rw [ht]
  · rw [toInstant_of_not h]
    refine iff_of_false (fun hread => ?_) fun hshows => h ⟨hshows.1.length_eq, hshows.1.digits⟩
    cases hread

theorem date_isDateForm : IsDateForm ofInstant toInstant := by
  have haccepts : ∀ text, (∃ t, toInstant text = .ok t) ↔ ShowsTime text := by
    intro text
    simp only [toInstant_eq_ok_iff, exists_and_left, and_iff_left_iff_imp]
    intro hshows
    have hfits := Clock.ofCompact_fits (String.length_toList ▸ hshows.length_eq) hshows.digits
    obtain ⟨t, ht⟩ := hshows.time.exists_instant? hfits.year_nonneg hfits.year_le
    exact ⟨t, Clock.instant?_eq_some_iff.mp ht⟩
  refine ⟨fun text t => toInstant_eq_ok_iff, haccepts, fun text hnot => ?_, fun t hlow hhigh => ?_,
    fun text t h => ?_⟩
  · by_cases h : text.length = 14 ∧ ∀ c ∈ text.toList, isDigit c = true
    · cases hread : toInstant text with
      | ok t => exact absurd ((haccepts text).mp ⟨t, hread⟩) hnot
      | error cause =>
        rw [toInstant_of_digits h.1 h.2] at hread
        split at hread
        · cases hread
        · exact .inr hread.symm
    · exact .inl (toInstant_of_not h)
  · have hwritten : ofInstant t = .ok (String.ofList t.clock.compact) := if_pos ⟨hlow, hhigh⟩
    refine ⟨_, hwritten, ?_⟩
    have hread := Instant.ofCompact?_compact (ofInstant_ok hwritten).1
    rw [← t.clock_wholeSecond, t.wholeSecond.instant?_clock] at hread
    rw [toInstant, String.toList_ofList, hread]
    refine if_neg ?_
    simpa [t.clock.length_compact] using t.clock.isDigit_of_mem_compact
  · obtain ⟨hshows, hclock⟩ := toInstant_eq_ok_iff.mp h
    have hlength : text.toList.length = 14 := String.length_toList ▸ hshows.length_eq
    have hfits := Clock.ofCompact_fits hlength hshows.digits
    have hyear : 0 ≤ t.year ∧ t.year ≤ 9999 := by
      rw [Instant.year, hclock]
      exact ⟨hfits.year_nonneg, hfits.year_le⟩
    rw [ofInstant, if_pos hyear, hclock, Clock.compact_ofCompact hlength hshows.digits,
      String.ofList_toList]

/-- Hexadecimal digits of a number below 2^32 are read as an `Int32`, and of one below 2^64 as an
`Int64`; in signed words the shift to an `Int32` fails only on numbers that are none. Fourteen
digits of a date and a time of day are read as their second. Any other text is an error. What is
written of a value is read as the value, of a date as its second, and what is read is written
again: of a date always, of an integer when it has the full count of digits, in lower case. -/
theorem reads_written : IsHexForm 8 Int32.toInt ofInt32 toInt32 ∧
    IsHexForm 16 Int64.toInt ofInt64 toInt64 ∧
    (∀ text, (toInt32InWords? text = none ∧ ShiftsBelow text) ∨
      (toInt32InWords? text = some (toInt32 text) ∧ ¬ ShiftsBelow text)) ∧
    IsDateForm ofInstant toInstant :=
  ⟨int32_isHexForm, int64_isHexForm, toInt32InWords?_cases, date_isDateForm⟩

end Term

end GuardedSearch
