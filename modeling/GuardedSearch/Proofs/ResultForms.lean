import GuardedSearch.Proofs.RecordForms
import GuardedSearch.Proofs.Stamps
import GuardedSearch.Serialized.Results

/-!
# Forms of documents and results

Documents and results are read back from their forms: their dates in years of four digits, and
their counts where they are machine words, as all counts that have been read are.
-/

namespace GuardedSearch

open Json

-- ---------------------------------------------------------------------------
-- Values
-- ---------------------------------------------------------------------------

namespace FieldValue

/-- A date of the value is in a year of four digits. -/
def HasFourDigitYear : FieldValue → Prop
  | date t => t.HasFourDigitYear
  | _ => True

instance : (v : FieldValue) → Decidable v.HasFourDigitYear
  | date t => inferInstanceAs (Decidable (0 ≤ t.year ∧ t.year ≤ 9999))
  | text _ | int32 _ | int64 _ | boolean _ => .isTrue trivial

theorem toJson_isPlain (v : FieldValue) : v.toJson.IsPlain := by
  cases v <;> simp [toJson, choice, Instant.toJson, IsPlain, MembersArePlain]

theorem ofJson?_toJson {v : FieldValue} (h : v.HasFourDigitYear) : ofJson? v.toJson = some v := by
  cases v with
  | text s => rfl
  | boolean b => rfl
  | int32 n =>
    rw [toJson, choice, ofJson?, int?, Option.bind_some, Word.int32?_toInt, Option.map_some]
  | int64 n =>
    rw [toJson, choice, ofJson?, int?, Option.bind_some, Word.int64?_toInt, Option.map_some]
  | date t =>
    rw [toJson, choice, Instant.toJson, ofJson?, Instant.ofJson?, string?, Option.bind_some,
      Instant.ofStamp?_rfc3339 h, Option.map_some]

end FieldValue

/-- All dates among the values are in years of four digits. -/
def HaveFourDigitYears (values : Table (List FieldValue)) : Prop :=
  ∀ vs ∈ values.values, ∀ v ∈ vs, v.HasFourDigitYear

instance (values : Table (List FieldValue)) : Decidable (HaveFourDigitYears values) :=
  inferInstanceAs (Decidable (∀ vs ∈ values.values, ∀ v ∈ vs, v.HasFourDigitYear))

theorem valuesToJson_isPlain (values : Table (List FieldValue)) :
    (valuesToJson values).IsPlain := by
  have hvalues (vs : List FieldValue) : (Json.array (vs.map FieldValue.toJson)).IsPlain :=
    arePlain_map FieldValue.toJson_isPlain vs
  exact ofTable_isPlain hvalues values

theorem valuesOfJson?_valuesToJson {values : Table (List FieldValue)}
    (h : HaveFourDigitYears values) : valuesOfJson? (valuesToJson values) = some values :=
  table?_ofTable fun vs hvs => list?_map fun v hv => FieldValue.ofJson?_toJson (h vs hvs v hv)

namespace Document

theorem toJson_isPlain (d : Document) : d.toJson.IsPlain :=
  ⟨valuesToJson_isPlain d.fields, trivial⟩

theorem ofJson?_toJson {d : Document} (h : HaveFourDigitYears d.fields) :
    ofJson? d.toJson = some d := by
  have hrecord : record? ["fields"] d.toJson = some [some (valuesToJson d.fields)] :=
    record?_members [("fields", valuesToJson d.fields)] (by simp)
  simp only [ofJson?, hrecord, valuesOfJson?_valuesToJson h, Option.bind_eq_bind, Option.bind_some]
  rfl

end Document

-- ---------------------------------------------------------------------------
-- Results
-- ---------------------------------------------------------------------------

theorem DocId.ofJson?_toJson {d : DocId} (h : d.ordinal < Word.size32) :
    ofJson? d.toJson = some d := by
  rw [ofJson?, toJson, nat?_ofNat h, Option.map_some]

namespace ResultRecord

theorem ofJson?_eq_some_iff {j : Json} {r : ResultRecord} : ofJson? j = some r ↔
    ∃ docId uri properties,
      record? ["doc_id", "uri", "properties"] j = some [some docId, some uri, some properties] ∧
      DocId.ofJson? docId = some r.docId ∧ uri.string? = some r.uri ∧
      valuesOfJson? properties = some r.properties := by
  constructor
  · intro h
    obtain ⟨members, hrecord, h⟩ := Option.bind_eq_some_iff.mp h
    split at h
    · next docId uri properties =>
      simp only [Option.bind_eq_bind, Option.bind_eq_some_iff, Option.pure_def,
        Option.some_inj] at h
      obtain ⟨_, hdocId, _, huri, _, hproperties, rfl⟩ := h
      exact ⟨docId, uri, properties, hrecord, hdocId, huri, hproperties⟩
    · cases h
  · rintro ⟨docId, uri, properties, hrecord, hdocId, huri, hproperties⟩
    rw [ofJson?, hrecord]
    simp only [hdocId, huri, hproperties, Option.bind_eq_bind, Option.bind_some, Option.pure_def]

/-- The ordinal of the record's document is a machine word. -/
def IsSized (r : ResultRecord) : Prop := r.docId.ordinal < Word.size32

theorem toJson_isPlain (r : ResultRecord) : r.toJson.IsPlain :=
  ⟨trivial, trivial, valuesToJson_isPlain r.properties, trivial⟩

theorem ofJson?_toJson {r : ResultRecord} (hsized : r.IsSized)
    (h : HaveFourDigitYears r.properties) : ofJson? r.toJson = some r := by
  have hrecord := record?_members [("doc_id", r.docId.toJson), ("uri", .string r.uri),
    ("properties", valuesToJson r.properties)] (by simp)
  exact ofJson?_eq_some_iff.mpr ⟨_, _, _, hrecord, DocId.ofJson?_toJson hsized, rfl,
    valuesOfJson?_valuesToJson h⟩

theorem isSized_of_ofJson? {j : Json} {r : ResultRecord} (h : ofJson? j = some r) : r.IsSized := by
  obtain ⟨docId, -, -, -, hdocId, -⟩ := ofJson?_eq_some_iff.mp h
  obtain ⟨ordinal, hordinal, heq⟩ := Option.map_eq_some_iff.mp hdocId
  rw [IsSized, ← heq]
  exact lt_of_nat? hordinal

end ResultRecord

namespace ResultSet

theorem ofJson?_eq_some_iff {j : Json} {r : ResultSet} : ofJson? j = some r ↔
    ∃ records totalHits rounds tookMs,
      record? ["records", "total_hits", "rounds", "took_ms"] j =
        some [some records, some totalHits, some rounds, some tookMs] ∧
      list? ResultRecord.ofJson? records = some r.records ∧ totalHits.count? = some r.totalHits ∧
      rounds.count? = some r.rounds ∧ tookMs.count? = some r.tookMs := by
  constructor
  · intro h
    obtain ⟨members, hrecord, h⟩ := Option.bind_eq_some_iff.mp h
    split at h
    · next records totalHits rounds tookMs =>
      simp only [Option.bind_eq_bind, Option.bind_eq_some_iff, Option.pure_def,
        Option.some_inj] at h
      obtain ⟨_, hrecords, _, htotalHits, _, hrounds, _, htookMs, rfl⟩ := h
      exact ⟨records, totalHits, rounds, tookMs, hrecord, hrecords, htotalHits, hrounds, htookMs⟩
    · cases h
  · rintro ⟨records, totalHits, rounds, tookMs, hrecord, hrecords, htotalHits, hrounds, htookMs⟩
    rw [ofJson?, hrecord]
    simp only [hrecords, htotalHits, hrounds, htookMs, Option.bind_eq_bind, Option.bind_some,
      Option.pure_def]

/-- All counts of the set are machine words. -/
structure IsSized (r : ResultSet) : Prop where
  records : ∀ record ∈ r.records, record.IsSized
  totalHits : r.totalHits < Word.size64
  rounds : r.rounds < Word.size64
  tookMs : r.tookMs < Word.size64

/-- All dates of the set are in years of four digits. -/
def HasFourDigitYears (r : ResultSet) : Prop :=
  ∀ record ∈ r.records, HaveFourDigitYears record.properties

theorem toJson_isPlain (r : ResultSet) : r.toJson.IsPlain :=
  ⟨arePlain_map ResultRecord.toJson_isPlain r.records, trivial, trivial, trivial, trivial⟩

theorem ofJson?_toJson {r : ResultSet} (hsized : r.IsSized) (h : r.HasFourDigitYears) :
    ofJson? r.toJson = some r := by
  have hrecord := record?_members [("records", .array (r.records.map ResultRecord.toJson)),
    ("total_hits", .int r.totalHits), ("rounds", .int r.rounds), ("took_ms", .int r.tookMs)]
    (by simp)
  have hrecords : list? ResultRecord.ofJson? (.array (r.records.map ResultRecord.toJson)) =
      some r.records :=
    list?_map fun record hmem => ResultRecord.ofJson?_toJson (hsized.records record hmem)
      (h record hmem)
  exact ofJson?_eq_some_iff.mpr ⟨_, _, _, _, hrecord, hrecords, nat?_ofNat hsized.totalHits,
    nat?_ofNat hsized.rounds, nat?_ofNat hsized.tookMs⟩

theorem isSized_of_ofJson? {j : Json} {r : ResultSet} (h : ofJson? j = some r) : r.IsSized := by
  obtain ⟨_, _, _, _, -, hrecords, htotalHits, hrounds, htookMs⟩ := ofJson?_eq_some_iff.mp h
  refine ⟨fun record hmem => ?_, lt_of_nat? htotalHits, lt_of_nat? hrounds, lt_of_nat? htookMs⟩
  obtain ⟨item, hitem⟩ := read_of_mem_list? hrecords record hmem
  exact ResultRecord.isSized_of_ofJson? hitem

end ResultSet

end GuardedSearch
