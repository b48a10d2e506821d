import GuardedSearch.Text.Digits
import Mathlib.Algebra.Group.Nat.Defs
import Mathlib.Data.List.Induction

/-!
# Numerals

Digits that a number is written with are read back as the number, both where their count is fixed
and where a number has as many as it needs. Digits that are read are written again with the same
count of digits, if their letters are in lower case.
-/

namespace GuardedSearch.Text

-- ---------------------------------------------------------------------------
-- Digits
-- ---------------------------------------------------------------------------

theorem isHexDigit_digitChar {n : Nat} (h : n < 16) : isHexDigit (digitChar n) = true := by
  have all : ∀ k : Fin 16, isHexDigit (digitChar k) = true := by decide
  exact all ⟨n, h⟩

theorem isDigit_digitChar {n : Nat} (h : n < 10) : isDigit (digitChar n) = true := by
  have all : ∀ k : Fin 10, isDigit (digitChar k) = true := by decide
  exact all ⟨n, h⟩

/-- A digit or a small letter up to `f`. -/
def isLowerHexDigit (c : Char) : Bool := isDigit c || (97 ≤ c.toNat && c.toNat ≤ 102)

theorem isLowerHexDigit_digitChar {n : Nat} (h : n < 16) :
    isLowerHexDigit (digitChar n) = true := by
  have all : ∀ k : Fin 16, isLowerHexDigit (digitChar k) = true := by decide
  exact all ⟨n, h⟩

theorem isHexDigit_of_isLowerHexDigit {c : Char} (h : isLowerHexDigit c = true) :
    isHexDigit c = true := by
  rw [isLowerHexDigit, Bool.or_eq_true] at h
  rw [isHexDigit, Bool.or_eq_true, Bool.or_eq_true]
  exact h.imp_left .inl

theorem digitValue_of_isDigit {c : Char} (h : isDigit c = true) :
    digitValue c < 10 ∧ digitChar (digitValue c) = c := by
  have hvalue : digitValue c = c.toNat - 48 := if_pos h
  simp only [isDigit, Bool.and_eq_true, decide_eq_true_eq] at h
  have hlt : c.toNat - 48 < 10 := by omega
  have hback : 48 + (c.toNat - 48) = c.toNat := by omega
  rw [hvalue, digitChar, if_pos hlt, hback]
  exact ⟨hlt, c.ofNat_toNat⟩

theorem digitValue_lt_of_isHexDigit {c : Char} (h : isHexDigit c = true) : digitValue c < 16 := by
  by_cases hdigit : isDigit c = true
  · have := (digitValue_of_isDigit hdigit).1
    omega
  · rw [digitValue, if_neg hdigit, if_pos h]
    simp only [isHexDigit, hdigit, Bool.false_or, Bool.or_eq_true, Bool.and_eq_true,
      decide_eq_true_eq] at h
    split <;> omega

/-- A digit is the one that is written for its value just when it is no capital letter. -/
theorem digitChar_digitValue_iff {c : Char} (h : isHexDigit c = true) :
    digitChar (digitValue c) = c ↔ isLowerHexDigit c = true := by
  by_cases hdigit : isDigit c = true
  · have hlower : isLowerHexDigit c = true := by rw [isLowerHexDigit, hdigit, Bool.true_or]
    exact iff_of_true (digitValue_of_isDigit hdigit).2 hlower
  · have hlarge : ∀ k : Fin 16, 10 ≤ (k : Nat) → (digitChar k).toNat = 87 + k := by decide
    have hlt := digitValue_lt_of_isHexDigit h
    have hvalue : digitValue c = if c.toNat ≤ 70 then c.toNat - 55 else c.toNat - 87 := by
      rw [digitValue, if_neg hdigit, if_pos h]
    simp only [isHexDigit, isLowerHexDigit, hdigit, Bool.false_or, Bool.or_eq_true,
      Bool.and_eq_true, decide_eq_true_eq] at h ⊢
    have hchar := hlarge ⟨digitValue c, hlt⟩ (by simp only; split at hvalue <;> omega)
    rw [← Char.toNat_inj, hchar]
    simp only
    split at hvalue <;> omega

theorem digitChar_eq_zero_iff {n : Nat} (h : n < 10) : digitChar n = '0' ↔ n = 0 := by
  have all : ∀ k : Fin 10, digitChar k = '0' ↔ (k : Nat) = 0 := by decide
  exact all ⟨n, h⟩

theorem digitChar_eq {n : Nat} (h : n < 10) : n.digitChar = digitChar n := by
  have all : ∀ k : Fin 10, (k : Nat).digitChar = digitChar k := by decide
  exact all ⟨n, h⟩

-- ---------------------------------------------------------------------------
-- As many digits as needed
-- ---------------------------------------------------------------------------

/-- The decimal digits of a number, without a zero in front. -/
def decimals (n : Nat) : List Char := (toString n).toList

theorem decimals_of_lt {n : Nat} (h : n < 10) : decimals n = [digitChar n] := by
  rw [decimals, Nat.toString_eq_repr, Nat.toList_repr, Nat.toDigits_of_lt_base h, digitChar_eq h]

theorem decimals_of_le {n : Nat} (h : 10 ≤ n) :
    decimals n = decimals (n / 10) ++ [digitChar (n % 10)] := by
  rw [decimals, decimals, Nat.toString_eq_repr, Nat.toString_eq_repr, Nat.toList_repr,
    Nat.toList_repr, Nat.toDigits_eq_if (by decide), if_neg (by omega),
    digitChar_eq (Nat.mod_lt _ (by decide))]

/-- A number has one digit, or those of its tenth and one more. -/
theorem decimals_induction {motive : Nat → Prop} (one : ∀ n, n < 10 → motive n)
    (more : ∀ n, 10 ≤ n → motive (n / 10) → motive n) (n : Nat) : motive n := by
  induction n using Nat.strongRecOn with
  | ind n ih =>
    by_cases h : n < 10
    · exact one n h
    · exact more n (by omega) (ih _ (by omega))

theorem isDigit_of_mem_decimals {n : Nat} : ∀ c ∈ decimals n, isDigit c = true := by
  induction n using decimals_induction with
  | one n h =>
    rw [decimals_of_lt h, List.forall_mem_singleton]
    exact isDigit_digitChar h
  | more n h ih =>
    rw [decimals_of_le h, List.forall_mem_append, List.forall_mem_singleton]
    exact ⟨ih, isDigit_digitChar (Nat.mod_lt _ (by decide))⟩

theorem ofDigits_decimals (n : Nat) : ofDigits 10 (decimals n) = n := by
  induction n using decimals_induction with
  | one n h =>
    rw [decimals_of_lt h]
    simp [ofDigits, digitValue_digitChar (show n < 16 by omega)]
  | more n h ih =>
    have hlast := Nat.mod_lt n (show 0 < 10 by decide)
    rw [decimals_of_le h, ofDigits_append_singleton, ih,
      digitValue_digitChar (show n % 10 < 16 by omega)]
    omega

theorem decimals_ne_nil (n : Nat) : decimals n ≠ [] := by
  cases n using decimals_induction with
  | one n h => simp [decimals_of_lt h]
  | more n h => simp [decimals_of_le h]

theorem head?_decimals {n : Nat} (h : 0 < n) : (decimals n).head? ≠ some '0' := by
  induction n using decimals_induction with
  | one n hlt =>
    rw [decimals_of_lt hlt, List.head?_cons, ne_eq, Option.some_inj, digitChar_eq_zero_iff hlt]
    omega
  | more n hle ih =>
    have hfirst := ih (by omega)
    rw [decimals_of_le hle, List.head?_append]
    cases hhead : (decimals (n / 10)).head? with
    | none => exact absurd (List.head?_eq_none_iff.mp hhead) (decimals_ne_nil _)
    | some c => rwa [hhead] at hfirst

-- ---------------------------------------------------------------------------
-- A fixed count of digits
-- ---------------------------------------------------------------------------

/-- The digits that are written are those of the base. -/
theorem exists_of_mem_fixedDigits {base : Nat} (hpos : 0 < base) (width n : Nat) :
    ∀ c ∈ fixedDigits base width n, ∃ k < base, c = digitChar k := by
  induction width generalizing n with
  | zero => exact List.forall_mem_nil _
  | succ width ih =>
    rw [fixedDigits, List.forall_mem_append, List.forall_mem_singleton]
    exact ⟨ih _, _, Nat.mod_lt _ hpos, rfl⟩

theorem isDigit_of_mem_fixedDigits (width n : Nat) :
    ∀ c ∈ fixedDigits 10 width n, isDigit c = true := by
  intro c hc
  obtain ⟨k, hk, rfl⟩ := exists_of_mem_fixedDigits (by decide) width n c hc
  exact isDigit_digitChar hk

theorem isLowerHexDigit_of_mem_fixedDigits (width n : Nat) :
    ∀ c ∈ fixedDigits 16 width n, isLowerHexDigit c = true := by
  intro c hc
  obtain ⟨k, hk, rfl⟩ := exists_of_mem_fixedDigits (by decide) width n c hc
  exact isLowerHexDigit_digitChar hk

/-- Of a number with more digits the lowest are read back. -/
theorem ofDigits_fixedDigits {base : Nat} (hpos : 0 < base) (hbase : base ≤ 16) (width n : Nat) :
    ofDigits base (fixedDigits base width n) = n % base ^ width := by
  induction width generalizing n with
  | zero => simp [fixedDigits, ofDigits, Nat.mod_one]
  | succ width ih =>
    have hlast := Nat.mod_lt n hpos
    rw [fixedDigits, ofDigits_append_singleton, ih, digitValue_digitChar (by omega), Nat.pow_succ',
      Nat.mod_mul, Nat.add_comm, Nat.mul_comm]

theorem ofDigits_lt {base : Nat} {cs : List Char} (h : ∀ c ∈ cs, digitValue c < base) :
    ofDigits base cs < base ^ cs.length := by
  induction cs using List.reverseRecOn with
  | nil => simp [ofDigits]
  | append_singleton cs c ih =>
    rw [List.forall_mem_append, List.forall_mem_singleton] at h
    have hfront := Nat.mul_le_mul_right base (Nat.succ_le_of_lt (ih h.1))
    have hlast := h.2
    rw [ofDigits_append_singleton, List.length_append, List.length_singleton, Nat.pow_succ]
    rw [Nat.succ_mul] at hfront
    omega

/-- Digits that are written as their values are written again with their count. -/
theorem fixedDigits_ofDigits {base : Nat} {cs : List Char}
    (h : ∀ c ∈ cs, digitValue c < base ∧ digitChar (digitValue c) = c) :
    fixedDigits base cs.length (ofDigits base cs) = cs := by
  induction cs using List.reverseRecOn with
  | nil => rfl
  | append_singleton cs c ih =>
    rw [List.forall_mem_append, List.forall_mem_singleton] at h
    obtain ⟨hfront, hlt, hlast⟩ := h
    have hpos : 0 < base := Nat.zero_lt_of_lt hlt
    have hdiv : (ofDigits base cs * base + digitValue c) / base = ofDigits base cs := by
      rw [Nat.mul_comm, Nat.mul_add_div hpos, Nat.div_eq_of_lt hlt, Nat.add_zero]
    have hmod : (ofDigits base cs * base + digitValue c) % base = digitValue c := by
      rw [Nat.mul_comm, Nat.mul_add_mod, Nat.mod_eq_of_lt hlt]
    rw [List.length_append, List.length_singleton, fixedDigits, ofDigits_append_singleton, hdiv,
      hmod, ih hfront, hlast]

theorem fixedDigits_ofDigits_decimal {cs : List Char} (h : ∀ c ∈ cs, isDigit c = true) :
    fixedDigits 10 cs.length (ofDigits 10 cs) = cs :=
  fixedDigits_ofDigits fun c hc => digitValue_of_isDigit (h c hc)

theorem ofDigits_decimal_lt {cs : List Char} (h : ∀ c ∈ cs, isDigit c = true) :
    ofDigits 10 cs < 10 ^ cs.length :=
  ofDigits_lt fun c hc => (digitValue_of_isDigit (h c hc)).1

theorem paddedNat_eq (width n : Nat) : paddedNat width n =
    List.replicate (width - (decimals n).length) '0' ++ decimals n := rfl

/-- A number that fits is filled up to just this count of digits. -/
theorem paddedNat_eq_fixedDigits {width n : Nat} (h : n < 10 ^ (width + 1)) :
    paddedNat (width + 1) n = fixedDigits 10 (width + 1) n := by
  induction width generalizing n with
  | zero =>
    have hlt : n < 10 := h
    rw [paddedNat_eq, decimals_of_lt hlt, fixedDigits, fixedDigits, Nat.mod_eq_of_lt hlt]
    rfl
  | succ width ih =>
    rw [Nat.pow_succ] at h
    rw [fixedDigits, ← ih (Nat.div_lt_of_lt_mul (by omega)), paddedNat_eq, paddedNat_eq]
    by_cases hlt : n < 10
    · have hzero : decimals 0 = ['0'] := rfl
      rw [decimals_of_lt hlt, Nat.div_eq_of_lt hlt, hzero, Nat.mod_eq_of_lt hlt,
        List.append_assoc]
      simp [List.replicate_succ']
    · rw [decimals_of_le (by omega), List.length_append, List.append_assoc]
      simp

end GuardedSearch.Text
