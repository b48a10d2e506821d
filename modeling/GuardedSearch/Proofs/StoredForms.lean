import GuardedSearch.Segment
import GuardedSearch.Proofs.Dictionary
import Mathlib.Algebra.Group.Nat.Defs
import Mathlib.Data.List.Induction

/-!
# Stored forms

What a segment stores of a document, read field by field, and the way back from a stored
integer to its value.
-/

namespace GuardedSearch

-- ---------------------------------------------------------------------------
-- Tables
-- ---------------------------------------------------------------------------

namespace Table

variable {α β : Type}

theorem get?_eq_some_iff {t : Table α} {key : String} {value : α} :
    t.get? key = some value ↔ (key, value) ∈ t.entries :=
  mem_entries_iff (e := (key, value)) |>.symm

theorem get?_filterKeys (t : Table α) (p : String → Bool) (key : String) :
    (t.filterKeys p).get? key = if p key = true then t.get? key else none := by
  refine Option.ext fun value => ?_
  rw [get?_eq_some_iff, filterKeys, List.mem_filter, ← get?_eq_some_iff]
  by_cases hp : p key = true <;> simp [hp]

theorem get?_map (f : α → β) (t : Table α) (key : String) :
    (t.map f).get? key = (t.get? key).map f := by
  refine Option.ext fun value => ?_
  rw [get?_eq_some_iff, map, List.mem_map, Option.map_eq_some_iff]
  constructor
  · rintro ⟨e, he, heq⟩
    obtain ⟨rfl, rfl⟩ := Prod.mk.inj heq
    exact ⟨e.2, get?_eq_some_iff.mpr he, rfl⟩
  · rintro ⟨a, ha, rfl⟩
    exact ⟨(key, a), get?_eq_some_iff.mp ha, rfl⟩

/-- The first of the values under a key. -/
def first? (t : Table (List α)) (key : String) : Option α := (t.get? key).bind (·.head?)

theorem first?_filterKeys (t : Table (List α)) {p : String → Bool} {key : String}
    (h : p key = true) : (t.filterKeys p).first? key = t.first? key := by
  rw [first?, first?, get?_filterKeys, if_pos h]

end Table

/-- The stored values of a field, if the document has any. -/
theorem Segment.get?_storedOf (doc : Document) (field : String) :
    (storedOf doc).get? field =
      if doc.valuesOf field = [] then none
      else some ((doc.valuesOf field).map FieldValue.stored) := by
  rw [storedOf, Table.get?_map, Document.valuesOf]
  have hget : (⟨doc.fields.entries.filter fun e => !e.2.isEmpty, doc.fields.sorted.filter _⟩ :
      Table (List FieldValue)).get? field = (doc.fields.get? field).filter (! ·.isEmpty) := by
    refine Option.ext fun values => ?_
    rw [Table.get?_eq_some_iff, List.mem_filter, ← Table.get?_eq_some_iff,
      Option.filter_eq_some_iff]
  rw [hget]
  cases doc.fields.get? field with
  | none => rfl
  | some values => cases values <;> rfl

theorem Segment.head?_storedOf (doc : Document) (field : String) :
    ((storedOf doc).get? field).bind (·.head?) = (doc.field? field).map FieldValue.stored := by
  rw [get?_storedOf, Document.field?]
  cases doc.valuesOf field <;> rfl

-- ---------------------------------------------------------------------------
-- Integers
-- ---------------------------------------------------------------------------

namespace Bytes

theorem toNat_append (bytes : List UInt8) (b : UInt8) :
    toNat (bytes ++ [b]) = toNat bytes * 256 + b.toNat := by
  simp [toNat]

theorem toNat_bigEndian (width n : Nat) : toNat (bigEndian width n) = n % 256 ^ width := by
  induction width generalizing n with
  | zero => simp [bigEndian, toNat, Nat.mod_one]
  | succ width ih =>
    have hpow : 256 ^ (width + 1) = 256 * 256 ^ width := by rw [Nat.pow_succ, Nat.mul_comm]
    rw [bigEndian, toNat_append, ih, UInt8.toNat_ofNat', hpow, Nat.mod_mul]
    omega

theorem toNat_lt (bytes : List UInt8) : toNat bytes < 256 ^ bytes.length := by
  induction bytes using List.reverseRecOn with
  | nil => simp [toNat]
  | append_singleton bytes b ih =>
    have := b.toNat_lt
    rw [toNat_append, List.length_append, List.length_singleton, Nat.pow_succ]
    omega

theorem bigEndian_toNat (bytes : List UInt8) : bigEndian bytes.length (toNat bytes) = bytes := by
  induction bytes using List.reverseRecOn with
  | nil => rfl
  | append_singleton bytes b ih =>
    have := b.toNat_lt
    have hdiv : (toNat bytes * 256 + b.toNat) / 256 = toNat bytes := by omega
    have hlow : UInt8.ofNat (toNat bytes * 256 + b.toNat) = b := by
      rw [← UInt8.toNat_inj, UInt8.toNat_ofNat']
      omega
    rw [List.length_append, List.length_singleton, bigEndian, toNat_append, hdiv, ih, hlow]

theorem toInt32_ofInt32 (v : Int32) : toInt32 (ofInt32 v) = .ok v := by
  rw [toInt32, ofInt32, if_pos (length_bigEndian ..), toNat_bigEndian]
  congr 1
  refine Int32.toInt_inj.mp ?_
  -- the bytes keep the integer modulo 2^32, and the signed integer is determined by that
  have hmod : (((v.toInt % Word.size32).toNat % 256 ^ 4 : Nat) : Int) = v.toInt % Int32.size := by
    simp only [Word.size32, Int32.size]
    omega
  rw [Int32.toInt_ofNat', hmod, Int.emod_bmod, ← Int32.toInt_ofInt, Int32.ofInt_toInt]

/-- Four bytes are read as the one integer that is stored as them. -/
theorem toInt32_eq_ok_iff {bytes : List UInt8} {v : Int32} :
    toInt32 bytes = .ok v ↔ bytes = ofInt32 v := by
  refine ⟨fun h => ?_, fun h => h ▸ toInt32_ofInt32 v⟩
  rw [toInt32] at h
  split at h
  · next hlength =>
    obtain rfl := Except.ok.inj h
    have hlt := toNat_lt bytes
    rw [hlength] at hlt
    have hmod : ((Int32.ofNat (toNat bytes)).toInt % Word.size32).toNat = toNat bytes := by
      rw [Int32.toInt_ofNat']
      simp only [Word.size32, Int32.size, Int.bmod_def]
      omega
    rw [ofInt32, hmod, ← hlength, bigEndian_toNat]
  · cases h

theorem toInt64_ofInt64 (v : Int64) : toInt64 (ofInt64 v) = .ok v := by
  rw [toInt64, ofInt64, if_pos (length_bigEndian ..), toNat_bigEndian]
  congr 1
  refine Int64.toInt_inj.mp ?_
  have hmod : (((v.toInt % Word.size64).toNat % 256 ^ 8 : Nat) : Int) = v.toInt % Int64.size := by
    simp only [Word.size64, Int64.size]
    omega
  rw [Int64.toInt_ofNat', hmod, Int.emod_bmod, ← Int64.toInt_ofInt, Int64.ofInt_toInt]

theorem toBool_ofBool (b : Bool) : toBool (ofBool b) = .ok b := by
  cases b <;> rfl

end Bytes

theorem StoredValue.decode_stored_int32 (v : Int32) :
    (FieldValue.int32 v).stored.decode .int32 = .ok (.int32 v) := by
  simp only [FieldValue.stored, decode, Bytes.toInt32_ofInt32]
  rfl

end GuardedSearch
