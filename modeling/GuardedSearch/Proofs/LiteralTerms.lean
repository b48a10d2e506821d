import GuardedSearch.Literal
import GuardedSearch.Proofs.DateSpellings
import GuardedSearch.Proofs.Meaning
import GuardedSearch.Proofs.TermBytes

/-!
# Terms of literals

The ways to spell a value. A literal that spells a value is looked for under the term that the
value is indexed with, and what a literal of a date is looked for is always the term of a date
(`literals_meet_terms`). Of a text, a number or a boolean nothing else is a literal
(`readLiteral_eq_ok_iff`).
-/

namespace GuardedSearch

open Text

-- ---------------------------------------------------------------------------
-- Blanks
-- ---------------------------------------------------------------------------

namespace Text

variable {cs core : List Char}

theorem dropBlanks_append {blanks : List Char} (h : ∀ c ∈ blanks, isBlank c = true)
    (cs : List Char) : dropBlanks (blanks ++ cs) = dropBlanks cs :=
  List.dropWhile_append_of_pos h

/-- The first character is there and is no blank. -/
def BeginsBare (cs : List Char) : Prop := ∃ c rest, cs = c :: rest ∧ isBlank c = false

/-- There are no blanks at either end. -/
structure IsBare (cs : List Char) : Prop where
  begins : BeginsBare cs
  ends : BeginsBare cs.reverse

theorem BeginsBare.dropBlanks_append (h : BeginsBare cs) (rest : List Char) :
    dropBlanks (cs ++ rest) = cs ++ rest := by
  obtain ⟨c, tail, rfl, hc⟩ := h
  exact dropBlanks_cons_of_not hc

theorem BeginsBare.append (h : BeginsBare cs) (rest : List Char) : BeginsBare (cs ++ rest) := by
  obtain ⟨c, tail, rfl, hc⟩ := h
  exact ⟨c, tail ++ rest, rfl, hc⟩

theorem beginsBare_of (hne : cs ≠ []) (h : ∀ c ∈ cs, isBlank c = false) : BeginsBare cs := by
  obtain ⟨c, tail, rfl⟩ := List.exists_cons_of_ne_nil hne
  exact ⟨c, tail, rfl, h c List.mem_cons_self⟩

theorem isBare_of (hne : cs ≠ []) (h : ∀ c ∈ cs, isBlank c = false) : IsBare cs :=
  ⟨beginsBare_of hne h, beginsBare_of (by simpa using hne) (by simpa using h)⟩

theorem isBare_append {first last : List Char} (hfirst : BeginsBare first)
    (hlast : BeginsBare last.reverse) (middle : List Char) :
    IsBare (first ++ (middle ++ last)) := by
  refine ⟨hfirst.append _, ?_⟩
  rw [List.reverse_append, List.reverse_append, List.append_assoc]
  exact hlast.append _

theorem trimBlanks_padded {before after : List Char} (hbefore : ∀ c ∈ before, isBlank c = true)
    (hafter : ∀ c ∈ after, isBlank c = true) (h : IsBare core) :
    trimBlanks (before ++ (core ++ after)) = core := by
  have hreverse : ∀ c ∈ after.reverse, isBlank c = true := by simpa using hafter
  have hends := h.ends.dropBlanks_append []
  rw [List.append_nil] at hends
  rw [trimBlanks, dropBlanks_append hbefore, h.begins.dropBlanks_append, List.reverse_append,
    dropBlanks_append hreverse, hends, List.reverse_reverse]

/-- Trimming takes nothing but blanks away. -/
theorem exists_padding (cs : List Char) : ∃ before after, (∀ c ∈ before, isBlank c = true) ∧
    (∀ c ∈ after, isBlank c = true) ∧ cs = before ++ (trimBlanks cs ++ after) := by
  refine ⟨cs.takeWhile isBlank, ((dropBlanks cs).reverse.takeWhile isBlank).reverse,
    fun c => List.mem_takeWhile_imp, fun c hc => ?_, ?_⟩
  · exact List.mem_takeWhile_imp (List.mem_reverse.mp hc)
  · have split (cs : List Char) : cs.takeWhile isBlank ++ dropBlanks cs = cs :=
      List.takeWhile_append_dropWhile
    rw [trimBlanks, ← List.reverse_append, split, List.reverse_reverse, split]

/-- A text of which some part has a property, with nothing but blanks around it. -/
def IsPadded (p : List Char → Prop) (raw : String) : Prop :=
  ∃ before core after, raw.toList = before ++ (core ++ after) ∧
    (∀ c ∈ before, isBlank c = true) ∧ (∀ c ∈ after, isBlank c = true) ∧ p core

theorem isPadded_iff {p : List Char → Prop} {raw : String} (hp : ∀ cs, p cs → IsBare cs) :
    IsPadded p raw ↔ p (trimBlanks raw.toList) := by
  constructor
  · rintro ⟨before, core, after, hraw, hbefore, hafter, hcore⟩
    rwa [hraw, trimBlanks_padded hbefore hafter (hp core hcore)]
  · intro h
    obtain ⟨before, after, hbefore, hafter, hraw⟩ := exists_padding raw.toList
    exact ⟨before, _, after, hraw, hbefore, hafter, h⟩

-- ---------------------------------------------------------------------------
-- Numbers
-- ---------------------------------------------------------------------------

theorem ofDigits_zeros_append (zeros : Nat) (cs : List Char) :
    ofDigits 10 (List.replicate zeros '0' ++ cs) = ofDigits 10 cs := by
  induction zeros with
  | zero => rfl
  | succ zeros ih => exact ih

theorem isDigit_of_mem_zeros_append (zeros n : Nat) :
    ∀ c ∈ List.replicate zeros '0' ++ decimals n, isDigit c = true := by
  rw [List.forall_mem_append]
  refine ⟨fun c hc => ?_, isDigit_of_mem_decimals⟩
  rw [List.eq_of_mem_replicate hc]
  decide

/-- Digits are zeros and then the digits of their number. -/
theorem exists_zeros_append_decimals (hne : cs ≠ []) (h : ∀ c ∈ cs, isDigit c = true) :
    ∃ zeros, cs = List.replicate zeros '0' ++ decimals (ofDigits 10 cs) := by
  obtain ⟨width, hwidth⟩ := Nat.exists_eq_succ_of_ne_zero (List.length_pos_iff.mpr hne).ne'
  have hwritten := fixedDigits_ofDigits_decimal h
  have hlt := ofDigits_decimal_lt h
  rw [hwidth] at hwritten hlt
  rw [← paddedNat_eq_fixedDigits hlt, paddedNat_eq] at hwritten
  exact ⟨_, hwritten.symm⟩

theorem isBare_fixedDigits (width n : Nat) : IsBare (fixedDigits 10 (width + 1) n) := by
  refine isBare_of (List.ne_nil_of_length_pos ?_) fun c hc => ?_
  · rw [length_fixedDigits]
    exact Nat.succ_pos width
  · exact Scanner.isBlank_of_isDigit (isDigit_of_mem_fixedDigits _ _ c hc)

end Text

namespace Literal

/-- A sign, which may be left out of a number that is not negative, any count of zeros and the
digits of the number. Zero may have either sign. -/
def SpellsInt (n : Int) (cs : List Char) : Prop :=
  ∃ sign zeros, cs = sign ++ (List.replicate zeros '0' ++ decimals n.natAbs) ∧
    (sign = ['-'] ∧ n ≤ 0 ∨ (sign = [] ∨ sign = ['+']) ∧ 0 ≤ n)

/-- A word in any case. -/
def SpellsBool (b : Bool) (cs : List Char) : Prop := cs.map Char.toLower = (Term.ofBool b).toList

theorem isBare_of_spellsInt {n : Int} {cs : List Char} (h : SpellsInt n cs) : IsBare cs := by
  obtain ⟨sign, zeros, rfl, hsign⟩ := h
  refine isBare_of (by simp [decimals_ne_nil]) ?_
  rw [List.forall_mem_append]
  refine ⟨?_, fun c hc => Scanner.isBlank_of_isDigit (isDigit_of_mem_zeros_append _ _ c hc)⟩
  rcases hsign with ⟨rfl, -⟩ | ⟨rfl | rfl, -⟩
  · exact List.forall_mem_singleton.mpr rfl
  · exact List.forall_mem_nil _
  · exact List.forall_mem_singleton.mpr rfl

theorem toLower_of_isBlank {c : Char} (h : isBlank c = true) : c.toLower = c := by
  refine dif_neg fun hupper => ?_
  have hlow : 65 ≤ c.toNat := UInt32.le_iff_toNat_le.mp hupper.1
  have hhigh : c.toNat ≤ 90 := UInt32.le_iff_toNat_le.mp hupper.2
  simp only [isBlank, Bool.or_eq_true, Bool.and_eq_true, beq_iff_eq, decide_eq_true_eq] at h
  omega

theorem isBare_of_spellsBool {b : Bool} {cs : List Char} (h : SpellsBool b cs) : IsBare cs := by
  have hbare : (Term.ofBool b).toList.any isBlank = false := by cases b <;> rfl
  refine isBare_of ?_ fun c hc => ?_
  · rintro rfl
    cases b <;> cases h
  · by_contra hblank
    rw [Bool.not_eq_false] at hblank
    have hmem : c ∈ (Term.ofBool b).toList := by
      rw [← h, ← toLower_of_isBlank hblank]
      exact List.mem_map_of_mem hc
    exact List.any_eq_false.mp hbare c hmem hblank

/-- The number that digits stand for, if there are any and nothing else. -/
def readNat? (cs : List Char) : Option Nat :=
  if cs.isEmpty || !cs.all isDigit then none else some (ofDigits 10 cs)

theorem readNat?_eq_some_iff {cs : List Char} {n : Nat} :
    readNat? cs = some n ↔ ∃ zeros, cs = List.replicate zeros '0' ++ decimals n := by
  constructor
  · intro h
    rw [readNat?] at h
    split at h
    · cases h
    · next hdigits =>
      obtain rfl := Option.some.inj h
      simp only [Bool.or_eq_true, not_or, List.isEmpty_iff, Bool.not_eq_true', Bool.not_eq_false,
        List.all_eq_true] at hdigits
      exact exists_zeros_append_decimals hdigits.1 hdigits.2
  · rintro ⟨zeros, rfl⟩
    have hdigits := List.all_eq_true.mpr (isDigit_of_mem_zeros_append zeros n)
    rw [readNat?, ofDigits_zeros_append, ofDigits_decimals, hdigits]
    simp [decimals_ne_nil]

theorem readInt?_minus (cs : List Char) :
    readInt? ('-' :: cs) = (readNat? cs).map fun n : Nat => -(n : Int) := by
  change Option.map _ (readNat? cs >>= _) = _
  cases readNat? cs <;> rfl

theorem readInt?_plus (cs : List Char) : readInt? ('+' :: cs) = (readNat? cs).map Int.ofNat := by
  change Option.map _ (readNat? cs >>= _) = _
  cases readNat? cs <;> rfl

theorem readInt?_of_not {cs : List Char} (hminus : ∀ ds, cs ≠ '-' :: ds)
    (hplus : ∀ ds, cs ≠ '+' :: ds) : readInt? cs = (readNat? cs).map Int.ofNat := by
  unfold readInt?
  split
  · exact absurd rfl (hminus _)
  · exact absurd rfl (hplus _)
  · change Option.map _ (readNat? cs >>= _) = _
    cases readNat? cs <;> rfl

theorem readInt?_eq_some_iff {cs : List Char} {n : Int} :
    readInt? cs = some n ↔ SpellsInt n cs := by
  constructor
  · intro h
    by_cases hminus : ∃ ds, cs = '-' :: ds
    · obtain ⟨ds, rfl⟩ := hminus
      rw [readInt?_minus, Option.map_eq_some_iff] at h
      obtain ⟨m, hm, rfl⟩ := h
      obtain ⟨zeros, rfl⟩ := readNat?_eq_some_iff.mp hm
      exact ⟨['-'], zeros, by simp, .inl ⟨rfl, by omega⟩⟩
    · by_cases hplus : ∃ ds, cs = '+' :: ds
      · obtain ⟨ds, rfl⟩ := hplus
        rw [readInt?_plus, Option.map_eq_some_iff] at h
        obtain ⟨m, hm, rfl⟩ := h
        obtain ⟨zeros, rfl⟩ := readNat?_eq_some_iff.mp hm
        exact ⟨['+'], zeros, rfl, .inr ⟨.inr rfl, Int.natCast_nonneg m⟩⟩
      · rw [readInt?_of_not (not_exists.mp hminus) (not_exists.mp hplus),
          Option.map_eq_some_iff] at h
        obtain ⟨m, hm, rfl⟩ := h
        obtain ⟨zeros, rfl⟩ := readNat?_eq_some_iff.mp hm
        exact ⟨[], zeros, rfl, .inr ⟨.inl rfl, Int.natCast_nonneg m⟩⟩
  · rintro ⟨sign, zeros, rfl, hsign⟩
    have hread := (readNat?_eq_some_iff (n := n.natAbs)).mpr ⟨zeros, rfl⟩
    rcases hsign with ⟨rfl, hn⟩ | ⟨rfl | rfl, hn⟩
    · refine (readInt?_minus _).trans (Option.map_eq_some_iff.mpr ⟨_, hread, ?_⟩)
      omega
    · have hsign {c : Char} (hc : isDigit c = false) (ds : List Char) :
          List.replicate zeros '0' ++ decimals n.natAbs ≠ c :: ds := fun heq => by
        have hdigit := isDigit_of_mem_zeros_append zeros n.natAbs c (heq ▸ List.mem_cons_self)
        rw [hc] at hdigit
        cases hdigit
      rw [List.nil_append, readInt?_of_not (hsign rfl) (hsign rfl)]
      exact Option.map_eq_some_iff.mpr ⟨_, hread, Int.natAbs_of_nonneg hn⟩
    · exact (readInt?_plus _).trans (Option.map_eq_some_iff.mpr ⟨_, hread, Int.natAbs_of_nonneg hn⟩)

theorem readBool?_eq_some_iff {cs : List Char} {b : Bool} :
    readBool? cs = some b ↔ SpellsBool b cs := by
  simp only [readBool?, SpellsBool]
  by_cases htrue : cs.map Char.toLower = "true".toList
  · cases b with
    | false => simp [Term.ofBool, htrue]
    | true => simp [Term.ofBool, htrue]
  · rw [if_neg htrue, Option.ite_none_right_eq_some]
    cases b with
    | false => exact and_iff_left rfl
    | true => exact iff_of_false (fun h => by cases h.2) htrue

end Literal

-- ---------------------------------------------------------------------------
-- Dates
-- ---------------------------------------------------------------------------

namespace Instant

theorem isBare_written {c : Clock} (h : c.Fits) : IsBare c.date.written := by
  have hbare := isBare_append (isBare_fixedDigits 3 c.date.year.toNat).begins
    (isBare_fixedDigits 1 c.date.day).ends ('-' :: fixedDigits 10 2 c.date.month ++ ['-'])
  rw [Literal.written_eq h]
  simpa using hbare

theorem isBare_of_spellsOffset {minutes : Int} {zone : List Char} (h : SpellsOffset minutes zone) :
    IsBare zone := by
  have hwritten {sign : Char} (hsign : isBlank sign = false) (hours minutes : Nat) :
      IsBare (writtenOffset sign hours minutes) := by
    have hbare := isBare_append ⟨sign, [], rfl, hsign⟩ (isBare_fixedDigits 1 minutes).ends
      (fixedDigits 10 2 hours ++ [':'])
    simpa [writtenOffset] using hbare
  cases h with
  | utc hletter =>
    refine isBare_of (List.cons_ne_nil _ _) (List.forall_mem_singleton.mpr ?_)
    rcases hletter with rfl | rfl <;> rfl
  | east => exact hwritten (by decide) _ _
  | west hsign => rcases hsign with rfl | rfl <;> exact hwritten (by decide) _ _

variable {t : Instant} {nanos : Nat} {h : nanos < nanosPerSecond}

theorem isBare_of_spells (hyear : t.HasFourDigitYear) {cs : List Char} (h : t.Spells cs) :
    IsBare cs := by
  have hdate := isBare_written hyear.fits
  cases h with
  | stamp hshown hshownYear hseparator hfraction hzone =>
    rename_i minutes shown separator fraction zone
    have hbare := isBare_append (isBare_written hshownYear.fits).begins
      (isBare_of_spellsOffset hzone).ends (separator :: shown.clock.writtenSecond ++ fraction)
    simpa using hbare
  | dateAndTime =>
    have hbare := isBare_append hdate.begins (isBare_fixedDigits 1 t.clock.second).ends
      (' ' :: fixedDigits 10 2 t.clock.hour ++ ':' :: fixedDigits 10 2 t.clock.minute ++ [':'])
    simpa [Clock.writtenSecond] using hbare
  | date => exact hdate
  | compact =>
    refine isBare_of (List.ne_nil_of_length_pos ?_) fun c hc => ?_
    · rw [Clock.length_compact]
      decide
    · exact Scanner.isBlank_of_isDigit (t.clock.isDigit_of_mem_compact c hc)

theorem year_withNanos : (t.withNanos nanos h).year = t.year := by
  rw [year, clock_withNanos, year]

theorem exists_ofInstant_iff : (∃ term, Term.ofInstant t = .ok term) ↔ t.HasFourDigitYear := by
  rw [Term.ofInstant, HasFourDigitYear]
  split <;> simp_all

/-- The term of a date has no more than its second. -/
theorem ofInstant_withNanos (hyear : t.HasFourDigitYear) :
    Term.ofInstant (t.withNanos nanos h) = Term.ofInstant t := by
  have hcompact : (t.withNanos nanos h).clock.compact = t.clock.compact := by
    rw [clock_withNanos, Clock.compact, Clock.compact]
  have hfour : 0 ≤ t.year ∧ t.year ≤ 9999 := hyear
  rw [Term.ofInstant, Term.ofInstant, year_withNanos, if_pos hfour, if_pos hfour, hcompact]

end Instant

-- ---------------------------------------------------------------------------
-- Values
-- ---------------------------------------------------------------------------

/-- The texts that spell a value, or, of a date, its second. A text is spelled as it is, and
anything else may have blanks around it. -/
def FieldValue.SpelledBy : FieldValue → String → Prop
  | text s, raw => raw = s
  | int32 n, raw => IsPadded (Literal.SpellsInt n.toInt) raw
  | int64 n, raw => IsPadded (Literal.SpellsInt n.toInt) raw
  | boolean b, raw => IsPadded (Literal.SpellsBool b) raw
  | date t, raw => IsPadded t.Spells raw

variable {raw : String} {v : FieldValue}

namespace FieldValue

theorem spelledBy_int32_iff {n : Int32} : (int32 n).SpelledBy raw ↔
    (Literal.readInt? (trimBlanks raw.toList)).bind Word.int32? = some n := by
  rw [SpelledBy, isPadded_iff fun _ => Literal.isBare_of_spellsInt, ← Literal.readInt?_eq_some_iff,
    Option.bind_eq_some_iff]
  simp [Word.int32?_eq_some_iff]

theorem spelledBy_int64_iff {n : Int64} : (int64 n).SpelledBy raw ↔
    (Literal.readInt? (trimBlanks raw.toList)).bind Word.int64? = some n := by
  rw [SpelledBy, isPadded_iff fun _ => Literal.isBare_of_spellsInt, ← Literal.readInt?_eq_some_iff,
    Option.bind_eq_some_iff]
  simp [Word.int64?_eq_some_iff]

theorem spelledBy_boolean_iff {b : Bool} : (boolean b).SpelledBy raw ↔
    Literal.readBool? (trimBlanks raw.toList) = some b := by
  rw [SpelledBy, isPadded_iff fun _ => Literal.isBare_of_spellsBool, Literal.readBool?_eq_some_iff]

theorem spelledBy_date {t : Instant} (hyear : t.HasFourDigitYear) (h : (date t).SpelledBy raw) :
    ∃ nanos, ∃ hnanos : nanos < nanosPerSecond,
      Instant.ofLiteral? (trimBlanks raw.toList) = some (t.withNanos nanos hnanos) :=
  Instant.ofLiteral?_of_spells hyear
    ((isPadded_iff fun _ => Instant.isBare_of_spells hyear).mp h)

end FieldValue

namespace FieldType

variable {type : FieldType}

/-- Of a text, a number or a boolean just the spellings are read. -/
theorem readLiteral_eq_ok_iff (htype : type ≠ .date) :
    type.readLiteral raw = .ok v ↔ v.fieldType = type ∧ v.SpelledBy raw := by
  constructor
  · intro h
    refine ⟨fieldType_of_readLiteral h, ?_⟩
    cases type with
    | text =>
      obtain rfl := Except.ok.inj h
      rfl
    | int32 =>
      simp only [readLiteral] at h
      split at h
      · next n hn =>
        obtain rfl := Except.ok.inj h
        exact FieldValue.spelledBy_int32_iff.mpr hn
      · cases h
    | int64 =>
      simp only [readLiteral] at h
      split at h
      · next n hn =>
        obtain rfl := Except.ok.inj h
        exact FieldValue.spelledBy_int64_iff.mpr hn
      · cases h
    | boolean =>
      simp only [readLiteral] at h
      split at h
      · next b hb =>
        obtain rfl := Except.ok.inj h
        exact FieldValue.spelledBy_boolean_iff.mpr hb
      · cases h
    | date => exact absurd rfl htype
  · rintro ⟨rfl, hspelled⟩
    cases v with
    | text s => exact congrArg (fun s => Except.ok (FieldValue.text s)) hspelled
    | int32 n =>
      simp only [FieldValue.fieldType, readLiteral, FieldValue.spelledBy_int32_iff.mp hspelled]
    | int64 n =>
      simp only [FieldValue.fieldType, readLiteral, FieldValue.spelledBy_int64_iff.mp hspelled]
    | boolean b =>
      simp only [FieldValue.fieldType, readLiteral, FieldValue.spelledBy_boolean_iff.mp hspelled]
    | date t => exact absurd rfl htype

theorem readLiteral_date_eq_ok_iff : FieldType.date.readLiteral raw = .ok v ↔
    ∃ t, Instant.ofLiteral? (trimBlanks raw.toList) = some t ∧ .date t = v := by
  simp only [readLiteral]
  cases Instant.ofLiteral? (trimBlanks raw.toList) <;> simp

theorem termOfLiteral_eq_ok_iff {term : String} : type.termOfLiteral raw = .ok term ↔
    ∃ v, type.readLiteral raw = .ok v ∧ v.term = .ok term :=
  Outcome.bind_ok

/-- A spelling of a value, or a text that is read as a date in a year of four digits. -/
def IsLiteral : FieldType → String → Prop
  | date, raw => ∃ t, Instant.ofLiteral? (trimBlanks raw.toList) = some t ∧ t.HasFourDigitYear
  | type, raw => ∃ v : FieldValue, v.fieldType = type ∧ v.SpelledBy raw

theorem isLiteral_iff_of_ne (htype : type ≠ .date) :
    type.IsLiteral raw ↔ ∃ v : FieldValue, v.fieldType = type ∧ v.SpelledBy raw := by
  cases type with
  | date => exact absurd rfl htype
  | _ => rfl

theorem exists_termOfLiteral_iff :
    (∃ term, type.termOfLiteral raw = .ok term) ↔ type.IsLiteral raw := by
  simp only [termOfLiteral_eq_ok_iff]
  by_cases htype : type = .date
  · subst htype
    simp only [readLiteral_date_eq_ok_iff, IsLiteral, ← Instant.exists_ofInstant_iff]
    constructor
    · rintro ⟨term, -, ⟨t, ht, rfl⟩, hterm⟩
      exact ⟨t, ht, term, hterm⟩
    · rintro ⟨t, ht, term, hterm⟩
      exact ⟨term, _, ⟨t, ht, rfl⟩, hterm⟩
  · simp only [readLiteral_eq_ok_iff htype, isLiteral_iff_of_ne htype]
    constructor
    · rintro ⟨-, v, hspelled, -⟩
      exact ⟨v, hspelled⟩
    · rintro ⟨v, rfl, hspelled⟩
      have hindexable : v.IsIndexable := by
        cases v with
        | date => exact absurd rfl htype
        | _ => trivial
      obtain ⟨term, hterm⟩ := FieldValue.exists_term_of_isIndexable hindexable
      exact ⟨term, v, ⟨rfl, hspelled⟩, hterm⟩

end FieldType

/-- A literal that spells a value has the term that the value is indexed with, and of a text, a
number or a boolean no other literal has a term. Whatever else a date is read from, a term of it
has fourteen digits and is read as a date. -/
theorem FieldValue.literals_meet_terms :
    (∀ (v : FieldValue) (raw term : String), v.term = .ok term → v.SpelledBy raw →
      v.fieldType.termOfLiteral raw = .ok term) ∧
    (∀ (type : FieldType) (raw term : String), type ≠ .date → type.termOfLiteral raw = .ok term →
      ∃ v : FieldValue, v.fieldType = type ∧ v.SpelledBy raw ∧ v.term = .ok term) ∧
    ∀ raw term : String, FieldType.date.termOfLiteral raw = .ok term →
      term.length = 14 ∧ (∀ c ∈ term.toList, isDigit c = true) ∧
        ∃ t, Term.toInstant term = .ok t := by
  refine ⟨?_, ?_, ?_⟩
  · intro v raw term hterm hspelled
    rw [FieldType.termOfLiteral_eq_ok_iff]
    by_cases hdate : v.fieldType = .date
    · obtain ⟨t, rfl⟩ : ∃ t, v = .date t := by cases v <;> simp_all [fieldType]
      have hyear := Instant.exists_ofInstant_iff.mp ⟨term, hterm⟩
      obtain ⟨nanos, hnanos, hread⟩ := spelledBy_date hyear hspelled
      exact ⟨_, FieldType.readLiteral_date_eq_ok_iff.mpr ⟨_, hread, rfl⟩,
        (Instant.ofInstant_withNanos hyear).trans hterm⟩
    · exact ⟨v, (FieldType.readLiteral_eq_ok_iff hdate).mpr ⟨rfl, hspelled⟩, hterm⟩
  · intro type raw term htype h
    obtain ⟨v, hread, hterm⟩ := FieldType.termOfLiteral_eq_ok_iff.mp h
    obtain ⟨hvtype, hspelled⟩ := (FieldType.readLiteral_eq_ok_iff htype).mp hread
    exact ⟨v, hvtype, hspelled, hterm⟩
  · intro raw term h
    obtain ⟨v, hread, hterm⟩ := FieldType.termOfLiteral_eq_ok_iff.mp h
    obtain ⟨t, -, rfl⟩ := FieldType.readLiteral_date_eq_ok_iff.mp hread
    obtain ⟨hlow, hhigh⟩ := Instant.exists_ofInstant_iff.mp ⟨term, hterm⟩
    obtain ⟨written, hwritten, hback⟩ := Term.date_isDateForm.read_write t hlow hhigh
    obtain rfl := Except.ok.inj (hwritten.symm.trans hterm)
    have hshows := (Term.date_isDateForm.accepts written).mp ⟨_, hback⟩
    exact ⟨hshows.length_eq, hshows.digits, _, hback⟩

/-- What clocks that are five and a half hours ahead show in the leap second of 2016. -/
def Instant.leapSecondEast : Instant :=
  ⟨1483248599, 1000000000, by decide, by decide, leapSecond2016.nanos_lt, by decide⟩

theorem Instant.spells_leapSecondEast : leapSecond2016.Spells
    (leapSecondEast.clock.date.written ++ 't' :: (leapSecondEast.clock.writtenSecond ++
      (['.', '2', '5'] ++ writtenOffset '+' 5 30))) := by
  have hshown : leapSecond2016.addMinutes? (5 * 60 + 30 : Nat) = some leapSecondEast := by decide
  refine .stamp hshown ⟨by decide, by decide⟩ (.inr (.inl rfl)) (.inr ⟨['2', '5'], ?_⟩)
    (.east (by decide) (by decide))
  exact ⟨List.cons_ne_nil _ _, List.all_eq_true.mp rfl, rfl⟩

/-- A leap second at the end of a year, spelled at an offset that leads into the next year. -/
theorem FieldValue.literals_meet_terms_leap_second :
    (FieldValue.date .leapSecond2016).term = .ok "20161231235960" ∧
      (FieldValue.date .leapSecond2016).SpelledBy "\u3000 2017-01-01t05:29:60.25+05:30\n" ∧
      FieldType.date.termOfLiteral "\u3000 2017-01-01t05:29:60.25+05:30\n" =
        .ok "20161231235960" ∧
      FieldType.boolean.termOfLiteral " TRUE" = .ok "true" ∧
      (∃ v : FieldValue, v.fieldType = .boolean ∧ v.SpelledBy " TRUE" ∧ v.term = .ok "true") ∧
      ∃ t, Term.toInstant "20161231235960" = .ok t := by
  have hterm : (FieldValue.date .leapSecond2016).term = .ok "20161231235960" := by decide
  have hspelled : (FieldValue.date .leapSecond2016).SpelledBy
      "\u3000 2017-01-01t05:29:60.25+05:30\n" := by
    refine ⟨['\u3000', ' '], _, ['\n'], ?_, List.all_eq_true.mp rfl, List.all_eq_true.mp rfl,
      Instant.spells_leapSecondEast⟩
    decide +kernel
  have hboolean : FieldType.boolean.termOfLiteral " TRUE" = .ok "true" := by decide
  obtain ⟨hmeets, hspelling, hdate⟩ := FieldValue.literals_meet_terms
  have hread := hmeets _ _ _ hterm hspelled
  exact ⟨hterm, hspelled, hread, hboolean, hspelling .boolean _ _ (by decide) hboolean,
    (hdate _ _ hread).2.2⟩

end GuardedSearch
