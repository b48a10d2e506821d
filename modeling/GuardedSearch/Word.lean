/-!
# Machine words

The sizes of fixed-width integers, and the integers that fit into them.
-/

namespace GuardedSearch.Word

def size32 : Nat := 0x100000000

def size64 : Nat := 0x10000000000000000

/-- How far a signed 32-bit integer is shifted to become an unsigned one. -/
def shift32 : Nat := 0x80000000

def shift64 : Nat := 0x8000000000000000

/-- The greatest unsigned 64-bit integer, where counts saturate. -/
def maxCount : Nat := 0xFFFFFFFFFFFFFFFF

def int32? (n : Int) : Option Int32 :=
  if -(shift32 : Int) ≤ n ∧ n < shift32 then some (Int32.ofInt n) else none

def int64? (n : Int) : Option Int64 :=
  if -(shift64 : Int) ≤ n ∧ n < shift64 then some (Int64.ofInt n) else none

theorem int32?_toInt (v : Int32) : int32? v.toInt = some v := by
  have := Int32.le_toInt v
  have := Int32.toInt_lt v
  rw [int32?, if_pos (by simp only [shift32]; omega), Int32.ofInt_toInt]

theorem int64?_toInt (v : Int64) : int64? v.toInt = some v := by
  have := Int64.le_toInt v
  have := Int64.toInt_lt v
  rw [int64?, if_pos (by simp only [shift64]; omega), Int64.ofInt_toInt]

theorem int32?_eq_some_iff {n : Int} {v : Int32} : int32? n = some v ↔ v.toInt = n := by
  refine ⟨fun h => ?_, fun h => h ▸ int32?_toInt v⟩
  rw [int32?] at h
  split at h
  · next hn =>
    simp only [shift32] at hn
    rw [← Option.some.inj h, Int32.toInt_ofInt_of_le] <;> omega
  · exact absurd h (by simp)

theorem int64?_eq_some_iff {n : Int} {v : Int64} : int64? n = some v ↔ v.toInt = n := by
  refine ⟨fun h => ?_, fun h => h ▸ int64?_toInt v⟩
  rw [int64?] at h
  split at h
  · next hn =>
    simp only [shift64] at hn
    rw [← Option.some.inj h, Int64.toInt_ofInt_of_le] <;> omega
  · exact absurd h (by simp)

theorem int64?_eq_none_iff {n : Int} :
    int64? n = none ↔ ¬ (-(shift64 : Int) ≤ n ∧ n < shift64) := by
  rw [int64?]
  split
  · next hn => simp [hn]
  · next hn => simp [hn]

end GuardedSearch.Word
