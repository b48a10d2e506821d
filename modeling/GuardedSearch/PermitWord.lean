/-!
# The word of a semaphore

A semaphore keeps its free permits and its closed state in one machine word: the lowest bit says
whether it is closed, and the others count. Each operation is given here with what it leaves of
both. Permits that come in carry over the end of the word and never touch the lowest bit; what
taking permits out leaves of it depends on the semaphore.
-/

namespace GuardedSearch

/-- What a semaphore writes when free permits are taken out of it: the lowest bit as it was, or
the count alone. -/
inductive Semaphore where
  | keepsClosed
  | reopens
deriving DecidableEq, Repr

structure PermitWord where
  bits : UInt64
deriving DecidableEq, Repr

namespace PermitWord

/-- How many counts there are. One permit more than the last is none again. -/
def size : Nat := 0x8000000000000000

def ofCount (permits : Nat) : PermitWord := ⟨UInt64.ofNat permits <<< 1⟩

def count (w : PermitWord) : Nat := (w.bits >>> 1).toNat

def closed (w : PermitWord) : Bool := w.bits &&& 1 == 1

def add (w : PermitWord) (permits : Nat) : PermitWord := ⟨w.bits + UInt64.ofNat permits <<< 1⟩

/-- A caller takes one free permit. -/
def take (w : PermitWord) : PermitWord := ⟨w.bits - 2⟩

def close (w : PermitWord) : PermitWord := ⟨w.bits ||| 1⟩

/-- Free permits are given up, all of them if there are no more. -/
def forget (w : PermitWord) (semaphore : Semaphore) (permits : Nat) : PermitWord :=
  let left := ofCount (w.count - permits)
  match semaphore with
  | .keepsClosed => if w.closed then left.close else left
  | .reopens => left

theorem count_eq (w : PermitWord) : w.count = w.bits.toNat / 2 := by
  simp [count, Nat.shiftRight_eq_div_pow]

theorem closed_iff (w : PermitWord) : w.closed = true ↔ w.bits.toNat % 2 = 1 := by
  simp [closed, ← UInt64.toNat_inj, Nat.and_one_is_mod]

theorem count_lt (w : PermitWord) : w.count < size := by
  have := w.bits.toNat_lt
  rw [count_eq, size]
  omega

theorem toNat_ofCount (n : Nat) : (ofCount n).bits.toNat = 2 * n % (2 * size) := by
  simp [ofCount, size, Nat.shiftLeft_eq]
  omega

theorem toNat_add (w : PermitWord) (n : Nat) :
    (w.add n).bits.toNat = (w.bits.toNat + 2 * n) % (2 * size) := by
  have hadded : (UInt64.ofNat n <<< 1).toNat = 2 * n % (2 * size) := toNat_ofCount n
  rw [add, UInt64.toNat_add, hadded]
  exact Nat.add_mod_mod ..

@[simp] theorem count_ofCount {n : Nat} (h : n < size) : (ofCount n).count = n := by
  rw [count_eq, toNat_ofCount, Nat.mod_eq_of_lt (by omega)]
  omega

@[simp] theorem closed_ofCount (n : Nat) : (ofCount n).closed = false := by
  rw [Bool.eq_false_iff, ne_eq, closed_iff, toNat_ofCount, size]
  omega

theorem count_add (w : PermitWord) (n : Nat) : (w.add n).count = (w.count + n) % size := by
  rw [count_eq, count_eq, toNat_add, size]
  omega

@[simp] theorem closed_add (w : PermitWord) (n : Nat) : (w.add n).closed = w.closed := by
  rw [Bool.eq_iff_iff, closed_iff, closed_iff, toNat_add, size]
  omega

theorem toNat_take {w : PermitWord} (h : 0 < w.count) :
    w.take.bits.toNat = w.bits.toNat - 2 := by
  rw [count_eq] at h
  have hle : 2 ≤ w.bits := by
    rw [UInt64.le_iff_toNat_le]
    simp
    omega
  exact UInt64.toNat_sub_of_le _ _ hle

theorem count_take {w : PermitWord} (h : 0 < w.count) : w.take.count = w.count - 1 := by
  rw [count_eq, count_eq, toNat_take h]
  omega

theorem closed_take {w : PermitWord} (h : 0 < w.count) : w.take.closed = w.closed := by
  rw [Bool.eq_iff_iff, closed_iff, closed_iff, toNat_take h]
  rw [count_eq] at h
  omega

@[simp] theorem count_close (w : PermitWord) : w.close.count = w.count := by
  simp [count, close, Nat.shiftRight_or_distrib]

@[simp] theorem closed_close (w : PermitWord) : w.close.closed = true := by
  rw [closed_iff, close, UInt64.toNat_or, Nat.or_mod_two_eq_one]
  exact .inr rfl

@[simp] theorem count_forget (w : PermitWord) (s : Semaphore) (n : Nat) :
    (w.forget s n).count = w.count - n := by
  have hlt := w.count_lt
  have hleft : (ofCount (w.count - n)).count = w.count - n := count_ofCount (by omega)
  cases s with
  | keepsClosed =>
    simp only [forget]
    split
    · rw [count_close, hleft]
    · exact hleft
  | reopens => exact hleft

/-- A closed word is closed after permits are given up just if the semaphore keeps it so. -/
theorem closed_forget (w : PermitWord) (s : Semaphore) (n : Nat) :
    (w.forget s n).closed = (w.closed && s == .keepsClosed) := by
  cases s with
  | keepsClosed =>
    cases hclosed : w.closed <;> simp [forget, hclosed]
  | reopens => simp [forget]

end PermitWord

end GuardedSearch
