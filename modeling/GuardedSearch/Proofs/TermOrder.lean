import GuardedSearch.Term
import GuardedSearch.Proofs.CalendarOrder
import GuardedSearch.Proofs.TextOrder
import Mathlib.Algebra.Group.Nat.Defs

/-!
# Terms compare as their values

`FieldValue.order?` compares two values of one type. `compares_of_order?` says that their index
terms compare in the same way.
-/

namespace GuardedSearch

-- ---------------------------------------------------------------------------
-- Digits
-- ---------------------------------------------------------------------------

namespace Text

theorem digitChar_lt {m n : Nat} (h : m < n) (hn : n < 16) : digitChar m < digitChar n := by
  have all : ∀ j k : Fin 16, j < k → digitChar j < digitChar k := by decide
  exact all ⟨m, by omega⟩ ⟨n, hn⟩ h

theorem append_lt {s t : List Char} (hlen : s.length = t.length) (h : s < t) (s' t' : List Char) :
    s ++ s' < t ++ t' := by
  induction h with
  | nil => cases hlen
  | rel hlt => exact .rel hlt
  | cons _ ih => exact .cons (ih (by simpa using hlen))

/-- With a fixed count of digits the smaller number has the smaller text. -/
theorem fixedDigits_lt {base width m n : Nat} (hpos : 0 < base) (hbase : base ≤ 16) (h : m < n)
    (hn : n < base ^ width) : fixedDigits base width m < fixedDigits base width n := by
  induction width generalizing m n with
  | zero =>
    rw [Nat.pow_zero] at hn
    omega
  | succ width ih =>
    have hn' : n / base < base ^ width := by
      rw [Nat.div_lt_iff_lt_mul hpos, ← Nat.pow_succ]
      exact hn
    have hle : m / base ≤ n / base := Nat.div_le_div_right (Nat.le_of_lt h)
    rw [fixedDigits, fixedDigits]
    rcases Nat.lt_or_eq_of_le hle with hlt | heq
    · exact append_lt (by simp only [length_fixedDigits]) (ih hlt hn') _ _
    · rw [heq]
      refine List.append_left_lt (.rel (digitChar_lt ?_ ?_))
      · have hm := Nat.div_add_mod m base
        have hn := Nat.div_add_mod n base
        rw [heq] at hm
        omega
      · exact Nat.lt_of_lt_of_le (Nat.mod_lt n hpos) hbase

end Text

-- ---------------------------------------------------------------------------
-- Clocks
-- ---------------------------------------------------------------------------

/-- The compact text of a clock has room for its parts. -/
structure Clock.Fits (c : Clock) : Prop where
  year_nonneg : 0 ≤ c.date.year
  year_le : c.date.year ≤ 9999
  month_lt : c.date.month < 100
  day_lt : c.date.day < 100
  hour_lt : c.hour < 100
  minute_lt : c.minute < 100
  second_lt : c.second < 100

open Text in
/-- An earlier clock has the smaller compact text. -/
theorem Clock.compact_lt {c d : Clock} (hc : c.Fits) (hd : d.Fits) (h : c.Precedes d) :
    c.compact < d.compact := by
  have digits {width m n : Nat} (h : m < n) (hn : n < 10 ^ width) :
      fixedDigits 10 width m < fixedDigits 10 width n :=
    fixedDigits_lt (by decide) (by decide) h hn
  have len (width m n : Nat) :
      (fixedDigits 10 width m).length = (fixedDigits 10 width n).length := by
    rw [length_fixedDigits, length_fixedDigits]
  have hyear_nonneg := hc.year_nonneg
  have hyear_le := hd.year_le
  simp only [compact, List.append_assoc]
  -- the first part that differs decides
  rcases h with (hyear | ⟨hyear, hmonth | ⟨hmonth, hday⟩⟩) |
    ⟨hdate, hhour | ⟨hhour, hminute | ⟨hminute, hsecond⟩⟩⟩
  · exact append_lt (len ..) (digits (by omega) (by omega)) _ _
  · rw [hyear]
    exact List.append_left_lt (append_lt (len ..) (digits hmonth hd.month_lt) _ _)
  · rw [hyear, hmonth]
    refine List.append_left_lt (List.append_left_lt ?_)
    exact append_lt (len ..) (digits hday hd.day_lt) _ _
  · rw [hdate]
    refine List.append_left_lt (List.append_left_lt (List.append_left_lt ?_))
    exact append_lt (len ..) (digits hhour hd.hour_lt) _ _
  · rw [hdate, hhour]
    refine List.append_left_lt (List.append_left_lt (List.append_left_lt (List.append_left_lt ?_)))
    exact append_lt (len ..) (digits hminute hd.minute_lt) _ _
  · rw [hdate, hhour, hminute]
    refine List.append_left_lt (List.append_left_lt (List.append_left_lt (List.append_left_lt ?_)))
    exact List.append_left_lt (digits hsecond hd.second_lt)

-- ---------------------------------------------------------------------------
-- Values
-- ---------------------------------------------------------------------------

/-- The order of two elements by a strict comparison. -/
def orderBy (less : α → α → Prop) [DecidableRel less] (a b : α) : Ordering :=
  if less a b then .lt else if less b a then .gt else .eq

instance : DecidableRel Instant.Precedes := fun t u => by
  unfold Instant.Precedes
  infer_instance

/-- The order of two values of one type: text by its bytes, integers as numbers, false before
true, dates by their seconds. -/
def FieldValue.order? : FieldValue → FieldValue → Option Ordering
  | .text a, .text b => some (orderBy (fun s t => Text.bytes s < Text.bytes t) a b)
  | .int32 a, .int32 b => some (orderBy (fun m n => m.toInt < n.toInt) a b)
  | .int64 a, .int64 b => some (orderBy (fun m n => m.toInt < n.toInt) a b)
  | .boolean a, .boolean b => some (orderBy (fun p q => p = false ∧ q = true) a b)
  | .date a, .date b => some (orderBy Instant.Precedes a b)
  | _, _ => none

theorem FieldValue.exists_order? {v w : FieldValue} (h : v.fieldType = w.fieldType) :
    ∃ o, v.order? w = some o := by
  cases v <;> cases w <;> simp_all [fieldType, order?]

/-- Two texts compare in this order. -/
def Text.Compares (s t : String) : Ordering → Prop
  | .lt => s < t
  | .eq => s = t
  | .gt => t < s

theorem Text.compares_orderBy {less : α → α → Prop} [DecidableRel less] {a b : α} {s t : String}
    (hlt : less a b → s < t) (hgt : less b a → t < s)
    (heq : ¬ less a b → ¬ less b a → s = t) : Text.Compares s t (orderBy less a b) := by
  unfold orderBy
  by_cases hab : less a b
  · rw [if_pos hab]
    exact hlt hab
  · by_cases hba : less b a
    · rw [if_neg hab, if_pos hba]
      exact hgt hba
    · rw [if_neg hab, if_neg hba]
      exact heq hab hba

namespace Term

theorem ofInt32_lt {m n : Int32} (h : m.toInt < n.toInt) : ofInt32 m < ofInt32 n := by
  have hm := Int32.le_toInt m
  have hn := Int32.toInt_lt n
  rw [String.lt_iff, ofInt32, ofInt32, String.toList_ofList, String.toList_ofList]
  exact Text.fixedDigits_lt (by decide) (by decide) (by simp only [Word.shift32]; omega)
    (by simp only [Word.shift32]; omega)

theorem ofInt32_inj {m n : Int32} (h : ofInt32 m = ofInt32 n) : m = n := by
  refine Int32.toInt_inj.mp ?_
  rcases Int.lt_trichotomy m.toInt n.toInt with hlt | heq | hgt
  · exact absurd (h ▸ ofInt32_lt hlt) (String.lt_irrefl _)
  · exact heq
  · exact absurd (h ▸ ofInt32_lt hgt) (String.lt_irrefl _)

theorem ofInt64_lt {m n : Int64} (h : m.toInt < n.toInt) : ofInt64 m < ofInt64 n := by
  have hm := Int64.le_toInt m
  have hn := Int64.toInt_lt n
  rw [String.lt_iff, ofInt64, ofInt64, String.toList_ofList, String.toList_ofList]
  exact Text.fixedDigits_lt (by decide) (by decide) (by simp only [Word.shift64]; omega)
    (by simp only [Word.shift64]; omega)

theorem ofBool_lt {p q : Bool} (h : p = false ∧ q = true) : ofBool p < ofBool q := by
  obtain ⟨rfl, rfl⟩ := h
  decide

theorem ofInstant_ok {t : Instant} {s : String} (h : ofInstant t = .ok s) :
    t.clock.Fits ∧ s = String.ofList t.clock.compact := by
  rw [ofInstant] at h
  split at h
  · rename_i hyear
    obtain ⟨hmonth, hday, hhour, hminute, hsecond⟩ := t.clock_bounds
    exact ⟨⟨hyear.1, hyear.2, hmonth, hday, hhour, hminute, hsecond⟩, (Except.ok.inj h).symm⟩
  · cases h

theorem ofInstant_lt {t u : Instant} {s s' : String} (ht : ofInstant t = .ok s)
    (hu : ofInstant u = .ok s') (h : t.Precedes u) : s < s' := by
  obtain ⟨htfits, rfl⟩ := ofInstant_ok ht
  obtain ⟨hufits, rfl⟩ := ofInstant_ok hu
  rw [String.lt_iff, String.toList_ofList, String.toList_ofList]
  exact Clock.compact_lt htfits hufits (Instant.clock_precedes h)

/-- Instants of the same second have the same term. -/
theorem ofInstant_congr {t u : Instant} {s s' : String} (ht : ofInstant t = .ok s)
    (hu : ofInstant u = .ok s') (htu : ¬ t.Precedes u) (hut : ¬ u.Precedes t) : s = s' := by
  obtain ⟨-, rfl⟩ := ofInstant_ok ht
  obtain ⟨-, rfl⟩ := ofInstant_ok hu
  have hseconds : t.seconds = u.seconds := by
    simp only [Instant.Precedes] at htu hut
    omega
  have hleap : t.isLeapSecond = u.isLeapSecond := by
    simp only [Instant.Precedes, hseconds, Int.lt_irrefl, true_and, false_or] at htu hut
    rw [Bool.eq_iff_iff]
    grind
  simp only [Clock.compact, Instant.clock, hseconds, hleap]

end Term

/-- The terms of two values of one type compare as the values do. -/
theorem FieldValue.compares_of_order? {v w : FieldValue} {s t : String} {o : Ordering}
    (hv : v.term = .ok s) (hw : w.term = .ok t) (ho : v.order? w = some o) :
    Text.Compares s t o := by
  cases v <;> cases w <;> simp only [order?, Option.some.injEq, reduceCtorEq] at ho <;> subst ho
  case text.text a b =>
    simp only [term, Except.ok.injEq] at hv hw
    subst hv hw
    refine Text.compares_orderBy Text.bytes_lt_iff.mp Text.bytes_lt_iff.mp fun hlt hgt => ?_
    rw [Text.bytes_lt_iff] at hlt hgt
    exact String.le_antisymm hgt hlt
  case int32.int32 m n =>
    simp only [term, Except.ok.injEq] at hv hw
    subst hv hw
    refine Text.compares_orderBy Term.ofInt32_lt Term.ofInt32_lt fun hlt hgt => ?_
    rw [Int32.toInt_inj.mp (show m.toInt = n.toInt by omega)]
  case int64.int64 m n =>
    simp only [term, Except.ok.injEq] at hv hw
    subst hv hw
    refine Text.compares_orderBy Term.ofInt64_lt Term.ofInt64_lt fun hlt hgt => ?_
    rw [Int64.toInt_inj.mp (show m.toInt = n.toInt by omega)]
  case boolean.boolean p q =>
    simp only [term, Except.ok.injEq] at hv hw
    subst hv hw
    refine Text.compares_orderBy Term.ofBool_lt Term.ofBool_lt fun hlt hgt => ?_
    congr 1
    cases p <;> cases q <;> simp_all
  case date.date a b =>
    exact Text.compares_orderBy (Term.ofInstant_lt hv hw) (Term.ofInstant_lt hw hv)
      (Term.ofInstant_congr hv hw)

end GuardedSearch
