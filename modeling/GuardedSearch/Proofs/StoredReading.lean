import GuardedSearch.Proofs.CalendarDates
import GuardedSearch.Proofs.ShownValues

/-!
# What is read of stored values

A stored value is read as a value of a type just when it is what is stored of that value, and the
stored values that are read as a type are told by their form and their width. So what is stored of
one type is read as another only where both have eight bytes (`decodes_exactly`).
-/

namespace GuardedSearch

-- ---------------------------------------------------------------------------
-- Bytes
-- ---------------------------------------------------------------------------

namespace Bytes

variable {bytes : List UInt8}

/-- The signed number that bytes stand for, in two's complement. -/
def signed (bytes : List UInt8) : Int := (toNat bytes : Int).bmod (256 ^ bytes.length)

/-- Bytes are the big-endian form of their signed number. -/
theorem bigEndian_signed (bytes : List UInt8) :
    bigEndian bytes.length (signed bytes % (256 ^ bytes.length : Nat)).toNat = bytes := by
  have hlt : (toNat bytes : Int) < (256 ^ bytes.length : Nat) := Int.ofNat_lt.mpr (toNat_lt bytes)
  rw [signed, Int.bmod_emod, Int.emod_eq_of_lt (Int.natCast_nonneg _) hlt, Int.toNat_natCast,
    bigEndian_toNat]

theorem toInt64_eq_ok_iff {v : Int64} :
    toInt64 bytes = .ok v ↔ bytes.length = 8 ∧ v.toInt = signed bytes := by
  rw [toInt64]
  split
  · next hlength =>
    rw [Except.ok.injEq, signed, hlength, ← Int64.toInt_inj, Int64.toInt_ofNat']
    exact ⟨fun h => ⟨rfl, h.symm⟩, fun h => h.2.symm⟩
  · next hlength => simp [hlength]

theorem ofInt64_of_signed {v : Int64} (hlength : bytes.length = 8) (h : v.toInt = signed bytes) :
    ofInt64 v = bytes := by
  have hwritten := bigEndian_signed bytes
  rwa [hlength, ← h] at hwritten

theorem toBool_eq_ok_iff {b : Bool} : toBool bytes = .ok b ↔ bytes = ofBool b := by
  refine ⟨fun h => ?_, fun h => h ▸ toBool_ofBool b⟩
  unfold toBool at h
  split at h
  · split at h
    · next hzero => cases h; rw [hzero]; rfl
    · split at h
      · next hone => cases h; rw [hone]; rfl
      · cases h
  · cases h

/-- Eight bytes are read as the instant whose seconds they count, if there is one. -/
theorem toInstant_eq_ok_iff {t : Instant} :
    toInstant bytes = .ok t ↔ bytes.length = 8 ∧ t.seconds = signed bytes ∧ t.nanos = 0 := by
  rw [toInstant, Outcome.bind_ok]
  simp only [toInt64_eq_ok_iff]
  constructor
  · rintro ⟨seconds, ⟨hlength, hseconds⟩, h⟩
    split at h
    · next u hu =>
      obtain rfl := Except.ok.inj h
      obtain ⟨hcount, hnanos⟩ := Instant.of?_eq_some_iff.mp hu
      exact ⟨hlength, hcount.trans hseconds, hnanos⟩
    · cases h
  · rintro ⟨hlength, hseconds, hnanos⟩
    have hword := t.toInt_ofInt_seconds
    refine ⟨Int64.ofInt t.seconds, ⟨hlength, hword.trans hseconds⟩, ?_⟩
    rw [hword, Instant.of?_eq_some_iff.mpr ⟨rfl, hnanos⟩]

end Bytes

-- ---------------------------------------------------------------------------
-- Stored values
-- ---------------------------------------------------------------------------

namespace Instant

theorem epochSecond_eq {t : Instant} (h : t.nanos = 0) : t.epochSecond = t := by
  cases t
  cases h
  rfl

/-- The counts of seconds that are instants, those of the years from -262143 to 262142. -/
def IsCount (seconds : Int) : Prop := -8334601228800 ≤ seconds ∧ seconds ≤ 8210266876799

example : (⟨-262143, 1, 1⟩ : Calendar.Date).dayNumber * secondsPerDay = -8334601228800 ∧
    (⟨262143, 1, 1⟩ : Calendar.Date).dayNumber * secondsPerDay = 8210266876799 + 1 := by
  decide

/-- The begin of the second with a count. -/
def ofCount {seconds : Int} (h : IsCount seconds) : Instant :=
  ⟨seconds, 0, h.1, h.2, zero_nanos_lt, fun hleap => absurd hleap (by decide)⟩

end Instant

/-- How many bytes are stored of a value of the type, if bytes are. -/
def FieldType.storedWidth? : FieldType → Option Nat
  | text => none
  | int32 => some 4
  | int64 => some 8
  | boolean => some 1
  | date => some 8

/-- Two types of one width are stored in eight bytes. -/
theorem FieldType.storedWidth?_eq_eight {type type' : FieldType} (hne : type ≠ type')
    (h : type.storedWidth? = type'.storedWidth?) :
    type.storedWidth? = some 8 ∧ type'.storedWidth? = some 8 := by
  cases type <;> cases type' <;> simp_all [storedWidth?]

namespace StoredValue

/-- The stored values that are read as a type: a text as text, and bytes of the type's width as
the other types, a boolean of 0 or 1 and a date of a count of seconds that is an instant. -/
def IsReadable : FieldType → StoredValue → Prop
  | .text, .text _ => True
  | .int32, .binary bytes => bytes.length = 4
  | .int64, .binary bytes => bytes.length = 8
  | .boolean, .binary bytes => bytes = [0] ∨ bytes = [1]
  | .date, .binary bytes => bytes.length = 8 ∧ Instant.IsCount (Bytes.signed bytes)
  | _, _ => False

def width? : StoredValue → Option Nat
  | text _ => none
  | binary bytes => some bytes.length

theorem width?_stored (v : FieldValue) : v.stored.width? = v.fieldType.storedWidth? := by
  cases v with
  | text s => rfl
  | int32 n => exact congrArg some (Bytes.length_bigEndian ..)
  | int64 n => exact congrArg some (Bytes.length_bigEndian ..)
  | boolean b => rfl
  | date t => exact congrArg some (Bytes.length_bigEndian ..)

variable {type : FieldType} {stored : StoredValue} {v : FieldValue}

/-- A stored value is read as a value just when it is what is stored of it, and the value has
nothing that is not stored. -/
theorem decode_eq_ok_iff :
    stored.decode type = .ok v ↔ v.fieldType = type ∧ v.stored = stored ∧ v.shown = v := by
  constructor
  · intro h
    unfold decode at h
    split at h
    · obtain rfl := Except.ok.inj h
      exact ⟨rfl, rfl, rfl⟩
    · obtain ⟨n, hn, rfl⟩ := Outcome.map_ok.mp (Outcome.mapError_ok.mp h)
      exact ⟨rfl, congrArg binary (Bytes.toInt32_eq_ok_iff.mp hn).symm, rfl⟩
    · obtain ⟨n, hn, rfl⟩ := Outcome.map_ok.mp (Outcome.mapError_ok.mp h)
      obtain ⟨hlength, hsigned⟩ := Bytes.toInt64_eq_ok_iff.mp hn
      exact ⟨rfl, congrArg binary (Bytes.ofInt64_of_signed hlength hsigned), rfl⟩
    · obtain ⟨b, hb, rfl⟩ := Outcome.map_ok.mp h
      exact ⟨rfl, congrArg binary (Bytes.toBool_eq_ok_iff.mp hb).symm, rfl⟩
    · obtain ⟨t, ht, rfl⟩ := Outcome.map_ok.mp (Outcome.mapError_ok.mp h)
      obtain ⟨hlength, hsigned, hnanos⟩ := Bytes.toInstant_eq_ok_iff.mp ht
      have hword := t.toInt_ofInt_seconds.trans hsigned
      exact ⟨rfl, congrArg binary (Bytes.ofInt64_of_signed hlength hword),
        congrArg FieldValue.date (Instant.epochSecond_eq hnanos)⟩
    · cases h
  · rintro ⟨rfl, rfl, hshown⟩
    rw [v.decode_stored, hshown]

theorem isReadable_stored (v : FieldValue) : v.stored.IsReadable v.fieldType := by
  cases v with
  | text s => exact trivial
  | int32 n => exact Bytes.length_bigEndian ..
  | int64 n => exact Bytes.length_bigEndian ..
  | boolean b =>
    change Bytes.ofBool b = [0] ∨ Bytes.ofBool b = [1]
    cases b <;> simp [Bytes.ofBool]
  | date t =>
    obtain ⟨hlength, hsigned, -⟩ := Bytes.toInstant_eq_ok_iff.mp (Bytes.toInstant_ofInstant t)
    exact ⟨hlength, hsigned ▸ ⟨t.earliest, t.latest⟩⟩

theorem exists_decode_iff : (∃ v, stored.decode type = .ok v) ↔ stored.IsReadable type := by
  constructor
  · rintro ⟨v, h⟩
    obtain ⟨rfl, rfl, -⟩ := decode_eq_ok_iff.mp h
    exact isReadable_stored v
  · intro h
    unfold IsReadable at h
    split at h
    · exact ⟨_, rfl⟩
    · next bytes =>
      have hread : Bytes.toInt32 bytes = .ok (Int32.ofNat (Bytes.toNat bytes)) := if_pos h
      exact ⟨.int32 _, by rw [decode, hread]; rfl⟩
    · next bytes =>
      have hread : Bytes.toInt64 bytes = .ok (Int64.ofNat (Bytes.toNat bytes)) := if_pos h
      exact ⟨.int64 _, by rw [decode, hread]; rfl⟩
    · rcases h with rfl | rfl <;> exact ⟨_, rfl⟩
    · next bytes =>
      have hread : Bytes.toInstant bytes = .ok (.ofCount h.2) :=
        Bytes.toInstant_eq_ok_iff.mpr ⟨h.1, rfl, rfl⟩
      exact ⟨.date _, by rw [decode, hread]; rfl⟩
    · cases h

/-- What is read of what is stored as another type has both types' width. -/
theorem width_eq_of_decode_ok {w : FieldValue} (h : v.stored.decode type = .ok w) :
    v.fieldType.storedWidth? = type.storedWidth? := by
  obtain ⟨rfl, hstored, -⟩ := decode_eq_ok_iff.mp h
  rw [← width?_stored, ← width?_stored, hstored]

/-- What is stored of a value is read back as the value, a date as the second that it is counted
in. Only that is read as a value, and the stored values that are read as a type are told by their
bytes. As another type than its own what is stored of a value is an error, unless both types are
stored in eight bytes. -/
theorem decodes_exactly :
    (∀ v : FieldValue, v.stored.decode v.fieldType = .ok v.shown) ∧
    (∀ (type : FieldType) (stored : StoredValue) (v : FieldValue),
      stored.decode type = .ok v ↔ v.fieldType = type ∧ v.stored = stored ∧ v.shown = v) ∧
    (∀ (type : FieldType) (stored : StoredValue),
      (∃ v, stored.decode type = .ok v) ↔ stored.IsReadable type) ∧
    ∀ (v : FieldValue) (type : FieldType), type ≠ v.fieldType →
      ¬ (v.stored.width? = some 8 ∧ type.storedWidth? = some 8) →
      ∃ error, v.stored.decode type = .error error := by
  refine ⟨FieldValue.decode_stored, fun type stored v => decode_eq_ok_iff,
    fun type stored => exists_decode_iff, ?_⟩
  intro v type htype hwidth
  cases hdecode : v.stored.decode type with
  | error error => exact ⟨error, rfl⟩
  | ok w =>
    -- the types have one width, and only two types share one
    have heq := width_eq_of_decode_ok hdecode
    rw [width?_stored] at hwidth
    exact absurd (FieldType.storedWidth?_eq_eight htype.symm heq) hwidth

/-- A leap second is read back as the second before, its count as an integer of eight bytes, and
nothing of four bytes is read of it. -/
theorem decodes_exactly_leap_second :
    (FieldValue.date .leapSecond2016).stored.decode .date =
        .ok (.date Instant.leapSecond2016.epochSecond) ∧
      (FieldValue.date .leapSecond2016).stored.decode .int64 = .ok (.int64 1483228799) ∧
      (∃ v, (StoredValue.binary [0, 0, 0, 0, 88, 104, 70, 255]).decode .date = .ok v) ∧
      FieldType.int32 ≠ .date ∧
      ∃ error, (FieldValue.date .leapSecond2016).stored.decode .int32 = .error error := by
  obtain ⟨hstored, hread, hreadable, hother⟩ := decodes_exactly
  refine ⟨hstored (.date .leapSecond2016), (hread ..).mpr ⟨rfl, by decide, rfl⟩,
    (hreadable ..).mpr ⟨rfl, by decide, by decide⟩, by decide, hother _ _ (by decide) (by decide)⟩

end StoredValue

end GuardedSearch
