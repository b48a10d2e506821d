/-!
# Digits

Numbers written with a fixed count of digits, most significant first, and read back from
decimal or hexadecimal digits. Only the ASCII digits and letters count as digits.
-/

namespace GuardedSearch.Text

def digitChar (n : Nat) : Char :=
  if n < 10 then Char.ofNat (48 + n) else Char.ofNat (87 + n)

/-- The lowest `width` digits of `n` in `base`, most significant first. -/
def fixedDigits (base : Nat) : Nat → Nat → List Char
  | 0, _ => []
  | width + 1, n => fixedDigits base width (n / base) ++ [digitChar (n % base)]

def isDigit (c : Char) : Bool := 48 ≤ c.toNat && c.toNat ≤ 57

def isHexDigit (c : Char) : Bool :=
  isDigit c || (65 ≤ c.toNat && c.toNat ≤ 70) || (97 ≤ c.toNat && c.toNat ≤ 102)

/-- The value of a hexadecimal digit in either case; zero for any other character. -/
def digitValue (c : Char) : Nat :=
  if isDigit c then c.toNat - 48
  else if isHexDigit c then (if c.toNat ≤ 70 then c.toNat - 55 else c.toNat - 87)
  else 0

def ofDigits (base : Nat) (cs : List Char) : Nat :=
  cs.foldl (fun n c => n * base + digitValue c) 0

/-- A decimal number of at least `width` digits, filled up with zeros. -/
def paddedNat (width n : Nat) : List Char :=
  let digits := (toString n).toList
  List.replicate (width - digits.length) '0' ++ digits

theorem length_fixedDigits (base width n : Nat) : (fixedDigits base width n).length = width := by
  induction width generalizing n with
  | zero => rfl
  | succ width ih => simp [fixedDigits, ih]

theorem ofDigits_append_singleton (base : Nat) (cs : List Char) (c : Char) :
    ofDigits base (cs ++ [c]) = ofDigits base cs * base + digitValue c := by
  simp [ofDigits]

theorem digitValue_digitChar {n : Nat} (h : n < 16) : digitValue (digitChar n) = n := by
  have all : ∀ k : Fin 16, digitValue (digitChar k) = k := by decide
  exact all ⟨n, h⟩

end GuardedSearch.Text
