import GuardedSearch.Proofs.Acceptance
import GuardedSearch.Proofs.TermBytes

/-!
# Values as they are shown

What is stored of a value is read back as the value, a date as the second that it is counted
in. A leap second has no count of its own, so the second before is read back for it:
`shown_term_iff` says that what is shown has the index term of the value just when the value is
no leap second, and `exists_shown_term_ne` gives a document that is not found by what it shows.
-/

namespace GuardedSearch

-- ---------------------------------------------------------------------------
-- Instants
-- ---------------------------------------------------------------------------

namespace Instant

theorem zero_nanos_lt : 0 < 2000000000 := by decide

theorem zero_nanos_at_59 (t : Instant) (h : 1000000000 ≤ 0) : t.seconds % 60 = 59 :=
  absurd h (by decide)

/-- The begin of the second that an instant is counted in. -/
def epochSecond (t : Instant) : Instant :=
  ⟨t.seconds, 0, t.earliest, t.latest, zero_nanos_lt, t.zero_nanos_at_59⟩

theorem of?_seconds (t : Instant) : of? t.seconds 0 = some t.epochSecond :=
  dif_pos ⟨t.earliest, t.latest, zero_nanos_lt, t.zero_nanos_at_59⟩

theorem epochSecond_precedes (t : Instant) (h : t.isLeapSecond = true) :
    t.epochSecond.Precedes t :=
  .inr ⟨rfl, Bool.false_ne_true, h⟩

theorem compact_epochSecond (t : Instant) (h : ¬ t.isLeapSecond = true) :
    t.epochSecond.clock.compact = t.clock.compact := by
  have hleap : t.isLeapSecond = false := by simpa using h
  have hepoch : t.epochSecond.isLeapSecond = false := rfl
  have hseconds : t.epochSecond.seconds = t.seconds := rfl
  simp only [Clock.compact, clock, hleap, hepoch, hseconds]

theorem toInt_ofInt_seconds (t : Instant) : (Int64.ofInt t.seconds).toInt = t.seconds := by
  have hearliest := t.earliest
  have hlatest := t.latest
  apply Int64.toInt_ofInt_of_le
  · omega
  · omega

end Instant

theorem Bytes.toInstant_ofInstant (t : Instant) : toInstant (ofInstant t) = .ok t.epochSecond := by
  rw [toInstant, Outcome.bind_ok]
  refine ⟨_, toInt64_ofInt64 _, ?_⟩
  simp only [t.toInt_ofInt_seconds, t.of?_seconds]

theorem Term.ofInstant_epochSecond_iff {t : Instant} {s : String} (h : ofInstant t = .ok s) :
    ofInstant t.epochSecond = .ok s ↔ ¬ t.isLeapSecond = true := by
  constructor
  · intro hepoch hleap
    exact String.lt_irrefl s (ofInstant_lt hepoch h (t.epochSecond_precedes hleap))
  · intro hleap
    obtain ⟨hfits, rfl⟩ := ofInstant_ok h
    rw [← t.compact_epochSecond hleap]
    exact if_pos ⟨hfits.year_nonneg, hfits.year_le⟩

-- ---------------------------------------------------------------------------
-- Values
-- ---------------------------------------------------------------------------

namespace FieldValue

def isLeapSecond : FieldValue → Bool
  | date t => t.isLeapSecond
  | _ => false

/-- The value that is read back from what is stored. -/
def shown : FieldValue → FieldValue
  | date t => date t.epochSecond
  | v => v

theorem fieldType_shown (v : FieldValue) : v.shown.fieldType = v.fieldType := by
  cases v <;> rfl

theorem decode_stored (v : FieldValue) : v.stored.decode v.fieldType = .ok v.shown := by
  cases v with
  | text s => rfl
  | int32 n => exact StoredValue.decode_stored_int32 n
  | int64 n =>
    simp only [stored, fieldType, StoredValue.decode, Bytes.toInt64_ofInt64]
    rfl
  | boolean b =>
    simp only [stored, fieldType, StoredValue.decode, Bytes.toBool_ofBool]
    rfl
  | date t =>
    simp only [stored, fieldType, StoredValue.decode, Bytes.toInstant_ofInstant]
    rfl

theorem term_shown_iff {v : FieldValue} {term : String} (h : v.term = .ok term) :
    v.shown.term = .ok term ↔ ¬ v.isLeapSecond = true := by
  cases v with
  | date t => exact Term.ofInstant_epochSecond_iff h
  | _ => exact iff_of_true h (by simp [isLeapSecond])

/-- Every value of an accepted document is read back from what is stored of it, and its term
finds the document. What is shown has the index term of the value, and a literal that is read as
what is shown is looked for under that term, just when the value is no leap second. -/
theorem shown_term_iff {index index' : Index} {doc : Document} (h : index.add doc = .ok index')
    {field : String} {v : FieldValue} (hv : v ∈ doc.valuesOf field) :
    ∃ term, v.term = .ok term ∧ NativeQuery.accepts doc (.term field term) = true ∧
      v.stored.decode v.fieldType = .ok v.shown ∧ v.shown.fieldType = v.fieldType ∧
      (v.shown.term = .ok term ↔ ¬ v.isLeapSecond = true) ∧
      ∀ raw, v.fieldType.readLiteral raw = .ok v.shown →
        (v.fieldType.termOfLiteral raw = .ok term ↔ ¬ v.isLeapSecond = true) := by
  obtain ⟨term, hterm⟩ := Index.indexable_of_add h field v hv
  refine ⟨term, hterm, NativeQuery.accepts_term_iff.mpr ⟨v, hv, hterm⟩, v.decode_stored,
    v.fieldType_shown, term_shown_iff hterm, ?_⟩
  intro raw hraw
  rw [← term_shown_iff hterm, FieldType.termOfLiteral, hraw]
  rfl

end FieldValue

/-- A document that was made in a leap second. -/
def Document.madeInLeapSecond : Document :=
  (empty.addValue Field.uri (.text "/a")).addValue "made" (.date .leapSecond2016)

theorem Document.readLiteral_madeInLeapSecond : FieldType.date.readLiteral "2016-12-31T23:59:59Z" =
    .ok (FieldValue.date .leapSecond2016).shown := by
  decide +kernel

theorem FieldValue.shown_term_iff_leap_second : ∃ index term,
    Index.empty.add .madeInLeapSecond = .ok index ∧
      .date .leapSecond2016 ∈ Document.madeInLeapSecond.valuesOf "made" ∧
      (FieldValue.date .leapSecond2016).term = .ok term ∧
      NativeQuery.accepts .madeInLeapSecond (.term "made" term) = true ∧
      (FieldValue.date .leapSecond2016).stored.decode .date =
        .ok (FieldValue.date .leapSecond2016).shown ∧
      ((FieldValue.date .leapSecond2016).shown.term = .ok term ↔
        ¬ Instant.leapSecond2016.isLeapSecond = true) ∧
      (FieldType.date.termOfLiteral "2016-12-31T23:59:59Z" = .ok term ↔
        ¬ Instant.leapSecond2016.isLeapSecond = true) := by
  have hvalue : .date .leapSecond2016 ∈ Document.madeInLeapSecond.valuesOf "made" := by decide
  obtain ⟨index, hadd⟩ : ∃ index, Index.empty.add .madeInLeapSecond = .ok index := ⟨_, rfl⟩
  obtain ⟨term, hterm, hfound, hdecode, -, hshown, hliteral⟩ :=
    FieldValue.shown_term_iff hadd hvalue
  exact ⟨index, term, hadd, hvalue, hterm, hfound, hdecode, hshown,
    hliteral _ Document.readLiteral_madeInLeapSecond⟩

/-- A literal that is read as what is shown of a document does not find it. -/
theorem exists_shown_term_ne : ∃ doc index shown raw term,
    Index.empty.add doc = .ok index ∧ .date .leapSecond2016 ∈ doc.valuesOf "made" ∧
      (FieldValue.date .leapSecond2016).stored.decode .date = .ok shown ∧
      shown.term ≠ (FieldValue.date .leapSecond2016).term ∧
      FieldType.date.readLiteral raw = .ok shown ∧ FieldType.date.termOfLiteral raw = .ok term ∧
      NativeQuery.accepts doc (.term "made" term) = false := by
  have hliteral := Document.readLiteral_madeInLeapSecond
  refine ⟨.madeInLeapSecond, _, _, "2016-12-31T23:59:59Z", "20161231235959", rfl, by decide,
    (FieldValue.date .leapSecond2016).decode_stored, by decide, hliteral, ?_, by decide⟩
  rw [FieldType.termOfLiteral, hliteral]
  decide

end GuardedSearch
