/-!
# Sets of document ordinals

A set of ordinals is a bit pattern: ordinal `i` belongs to it when bit `i` is set. Two sets
with the same members are the same pattern.
-/

namespace GuardedSearch

structure DocId where
  ordinal : Nat
deriving DecidableEq, Repr, Inhabited

structure DocSet where
  bits : Nat
deriving DecidableEq, Repr, Inhabited

namespace DocSet

def empty : DocSet := ⟨0⟩

instance : EmptyCollection DocSet := ⟨empty⟩

def contains (s : DocSet) (i : Nat) : Bool := s.bits.testBit i

instance : Membership Nat DocSet := ⟨fun s i => s.contains i = true⟩

instance (i : Nat) (s : DocSet) : Decidable (i ∈ s) := inferInstanceAs (Decidable (_ = true))

def insert (s : DocSet) (i : Nat) : DocSet := ⟨s.bits ||| 1 <<< i⟩

def union (s t : DocSet) : DocSet := ⟨s.bits ||| t.bits⟩

def inter (s t : DocSet) : DocSet := ⟨s.bits &&& t.bits⟩

def sdiff (s t : DocSet) : DocSet := ⟨s.bits ^^^ (s.bits &&& t.bits)⟩

instance : Union DocSet := ⟨union⟩

instance : Inter DocSet := ⟨inter⟩

instance : SDiff DocSet := ⟨sdiff⟩

def unionAll (sets : List DocSet) : DocSet := sets.foldl (· ∪ ·) ∅

def toList (s : DocSet) : List Nat := (List.range (s.bits.log2 + 1)).filter s.contains

def size (s : DocSet) : Nat := s.toList.length

def first? (s : DocSet) : Option Nat := s.toList.head?

theorem mem_iff {i : Nat} {s : DocSet} : i ∈ s ↔ s.bits.testBit i = true := .rfl

@[ext] theorem ext {s t : DocSet} (h : ∀ i, i ∈ s ↔ i ∈ t) : s = t := by
  cases s; cases t
  congr 1
  exact Nat.eq_of_testBit_eq fun i => Bool.eq_iff_iff.2 (h i)

@[simp] theorem not_mem_empty (i : Nat) : ¬ i ∈ (∅ : DocSet) := by
  change ¬ Nat.testBit 0 i = true
  simp

@[simp] theorem mem_union {i : Nat} {s t : DocSet} : i ∈ s ∪ t ↔ i ∈ s ∨ i ∈ t := by
  change Nat.testBit (s.bits ||| t.bits) i = true ↔ _
  simp [Nat.testBit_or, mem_iff]

@[simp] theorem mem_inter {i : Nat} {s t : DocSet} : i ∈ s ∩ t ↔ i ∈ s ∧ i ∈ t := by
  change Nat.testBit (s.bits &&& t.bits) i = true ↔ _
  simp [Nat.testBit_and, mem_iff]

@[simp] theorem mem_sdiff {i : Nat} {s t : DocSet} : i ∈ s \ t ↔ i ∈ s ∧ ¬ i ∈ t := by
  change Nat.testBit (s.bits ^^^ (s.bits &&& t.bits)) i = true ↔ _
  simp only [Nat.testBit_xor, Nat.testBit_and, mem_iff]
  cases s.bits.testBit i <;> simp

@[simp] theorem mem_insert {i j : Nat} {s : DocSet} : i ∈ s.insert j ↔ i = j ∨ i ∈ s := by
  change Nat.testBit (s.bits ||| 1 <<< j) i = true ↔ _
  rw [Nat.testBit_or, Nat.one_shiftLeft, Nat.testBit_two_pow, Bool.or_eq_true,
    decide_eq_true_eq, or_comm, eq_comm (a := j), mem_iff]

@[simp] theorem mem_toList {i : Nat} {s : DocSet} : i ∈ s.toList ↔ i ∈ s := by
  rw [toList, List.mem_filter, List.mem_range]
  refine ⟨fun h => h.2, fun h => ⟨?_, h⟩⟩
  have hle : 2 ^ i ≤ s.bits := Nat.ge_two_pow_of_testBit h
  have hne : s.bits ≠ 0 := fun h0 => by simp [mem_iff, h0] at h
  exact Nat.lt_succ_of_le ((Nat.le_log2 hne).2 hle)

theorem nodup_toList (s : DocSet) : s.toList.Nodup := List.Pairwise.filter _ List.nodup_range

end DocSet

end GuardedSearch
