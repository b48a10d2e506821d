import GuardedSearch.Proofs.Dictionary
import GuardedSearch.Proofs.Outcomes

/-!
# What a segment keeps of its documents

`Represents` says that a segment shows a list of documents: each document by its place, each
posting set by the documents that have the term. `add_represents` says that one more document
keeps this, `build_represents` that a segment shows the documents it is built of. The sets that
the scans of a segment find are read off it.
-/

namespace GuardedSearch

-- ---------------------------------------------------------------------------
-- Folds of sets
-- ---------------------------------------------------------------------------

namespace DocSet

theorem mem_foldl_union {i : Nat} {sets : List DocSet} {s : DocSet} :
    i ∈ sets.foldl (· ∪ ·) s ↔ i ∈ s ∨ ∃ t ∈ sets, i ∈ t := by
  induction sets generalizing s with
  | nil => simp
  | cons t sets ih => simp only [List.foldl_cons, ih, mem_union, or_assoc, List.mem_cons,
      exists_eq_or_imp]

theorem mem_unionAll {i : Nat} {sets : List DocSet} : i ∈ unionAll sets ↔ ∃ t ∈ sets, i ∈ t := by
  rw [unionAll, mem_foldl_union]
  simp

theorem mem_foldl_inter {i : Nat} {sets : List DocSet} {s : DocSet} :
    i ∈ sets.foldl (· ∩ ·) s ↔ i ∈ s ∧ ∀ t ∈ sets, i ∈ t := by
  induction sets generalizing s with
  | nil => simp
  | cons t sets ih => rw [List.foldl_cons, ih, mem_inter, and_assoc, List.forall_mem_cons]

theorem mem_foldl_sdiff {i : Nat} {sets : List DocSet} {s : DocSet} :
    i ∈ sets.foldl (· \ ·) s ↔ i ∈ s ∧ ∀ t ∈ sets, i ∉ t := by
  induction sets generalizing s with
  | nil => simp
  | cons t sets ih => rw [List.foldl_cons, ih, mem_sdiff, and_assoc, List.forall_mem_cons]

end DocSet

-- ---------------------------------------------------------------------------
-- Dictionaries
-- ---------------------------------------------------------------------------

namespace FieldIndex

variable {index : FieldIndex} {ordinal i : Nat} {terms : List String} {term : String}

/-- The documents that have a term. -/
def withTerm (index : FieldIndex) (term : String) : DocSet := (index.terms.get? term).getD ∅

theorem mem_withTerm_addTerms : i ∈ (index.addTerms ordinal terms).withTerm term ↔
    i ∈ index.withTerm term ∨ i = ordinal ∧ term ∈ terms := by
  simp only [withTerm, addTerms]
  generalize index.terms = table
  induction terms generalizing table with
  | nil => simp
  | cons t terms ih =>
    rw [List.foldl_cons, ih, Table.get?_update]
    by_cases ht : term = t
    · subst ht
      simp only [↓reduceIte, Option.getD_some, DocSet.mem_insert, List.mem_cons, true_or]
      grind
    · simp [ht]

theorem mem_present_addTerms : i ∈ (index.addTerms ordinal terms).present ↔
    i ∈ index.present ∨ i = ordinal ∧ terms ≠ [] := by
  cases terms with
  | nil => simp [addTerms]
  | cons t terms => simp [addTerms, or_comm]

/-- A scan that keeps the entries whose terms satisfy `p` finds the documents that have such
a term. -/
theorem mem_postingsOf_filter (p : String → Bool) :
    i ∈ Segment.postingsOf (index.terms.entries.filter fun e => p e.1) ↔
      ∃ term, p term = true ∧ i ∈ index.withTerm term := by
  simp only [Segment.postingsOf, DocSet.mem_unionAll, List.mem_map, List.mem_filter,
    Table.mem_entries_iff]
  constructor
  · rintro ⟨_, ⟨e, ⟨he, hp⟩, rfl⟩, hi⟩
    exact ⟨e.1, hp, by rwa [withTerm, he]⟩
  · rintro ⟨term, hp, hi⟩
    rw [withTerm] at hi
    cases hget : index.terms.get? term with
    | none => simp [hget] at hi
    | some found =>
      rw [hget, Option.getD_some] at hi
      exact ⟨found, ⟨(term, found), ⟨hget, hp⟩, rfl⟩, hi⟩

end FieldIndex

-- ---------------------------------------------------------------------------
-- Segments
-- ---------------------------------------------------------------------------

/-- The index terms of a document's values in a field. -/
def Document.termsIn (doc : Document) (field : String) : List String :=
  (doc.valuesOf field).filterMap fun v => v.term.toOption

namespace Segment

/-- The dictionary of a field; a field without values has an empty one. -/
def dictionary (s : Segment) (field : String) : FieldIndex := (s.index? field).getD .empty

theorem withTerm_eq (s : Segment) (field term : String) :
    s.withTerm field term = (s.dictionary field).withTerm term := by
  unfold withTerm dictionary
  cases s.index? field <;> rfl

theorem withField_eq (s : Segment) (field : String) :
    s.withField field = (s.dictionary field).present := by
  unfold withField dictionary
  cases s.index? field <;> rfl

theorem termsUnder_eq (s : Segment) (field stem : String) :
    s.termsUnder field stem = (s.dictionary field).entriesUnder stem := by
  unfold termsUnder dictionary
  cases s.index? field <;> rfl

theorem termsBetween_eq (s : Segment) (field : String) (lower upper : Bound) :
    s.termsBetween field lower upper = (s.dictionary field).entriesBetween lower upper := by
  unfold termsBetween dictionary
  cases s.index? field <;> rfl

theorem termsMatching_eq (s : Segment) (field pattern : String) :
    s.termsMatching field pattern = (s.dictionary field).entriesMatching pattern := by
  unfold termsMatching dictionary
  cases s.index? field <;> rfl

/-- The dictionaries after the terms of one document have been entered. -/
def enter (fields : Table FieldIndex) (ordinal : Nat) (fieldTerms : List (String × List String)) :
    Table FieldIndex :=
  fieldTerms.foldl (fun fields e =>
    fields.update e.1 fun index => (index.getD .empty).addTerms ordinal e.2) fields

/-- What entering terms adds to one dictionary is added by those that are entered for its field. -/
theorem enter_iff {P : FieldIndex → Prop} {Q : List String → Prop} {ordinal : Nat}
    (hadd : ∀ index terms, P (index.addTerms ordinal terms) ↔ P index ∨ Q terms)
    {fields : Table FieldIndex} {fieldTerms : List (String × List String)} {field : String} :
    P (((enter fields ordinal fieldTerms).get? field).getD .empty) ↔
      P ((fields.get? field).getD .empty) ∨ ∃ e ∈ fieldTerms, e.1 = field ∧ Q e.2 := by
  unfold enter
  induction fieldTerms generalizing fields with
  | nil => simp
  | cons e fieldTerms ih =>
    rw [List.foldl_cons, ih, Table.get?_update]
    by_cases he : field = e.1
    · subst he
      simp [hadd, or_assoc]
    · simp [he, Ne.symm he]

theorem mem_withTerm_enter {fields : Table FieldIndex} {ordinal i : Nat}
    {fieldTerms : List (String × List String)} {field term : String} :
    i ∈ (((enter fields ordinal fieldTerms).get? field).getD .empty).withTerm term ↔
      i ∈ ((fields.get? field).getD .empty).withTerm term ∨
        i = ordinal ∧ ∃ e ∈ fieldTerms, e.1 = field ∧ term ∈ e.2 := by
  rw [enter_iff (P := fun index => i ∈ index.withTerm term)
    (Q := fun terms => i = ordinal ∧ term ∈ terms) fun _ _ => FieldIndex.mem_withTerm_addTerms]
  grind

theorem mem_present_enter {fields : Table FieldIndex} {ordinal i : Nat}
    {fieldTerms : List (String × List String)} {field : String} :
    i ∈ (((enter fields ordinal fieldTerms).get? field).getD .empty).present ↔
      i ∈ ((fields.get? field).getD .empty).present ∨
        i = ordinal ∧ ∃ e ∈ fieldTerms, e.1 = field ∧ e.2 ≠ [] := by
  rw [enter_iff (P := fun index => i ∈ index.present)
    (Q := fun terms => i = ordinal ∧ terms ≠ []) fun _ _ => FieldIndex.mem_present_addTerms]
  grind

theorem termsOf_ok {doc : Document} {fieldTerms : List (String × List String)}
    (h : termsOf doc = .ok fieldTerms) :
    fieldTerms = doc.fields.entries.map (fun e => (e.1, doc.termsIn e.1)) ∧
      ∀ field, ∀ v ∈ doc.valuesOf field, ∃ term, v.term = .ok term := by
  have each (e : String × List FieldValue) (he : e ∈ doc.fields.entries) :
      (∀ v ∈ e.2, ∃ term, v.term = .ok term) ∧
        (do return (e.1, ← e.2.mapM FieldValue.term) : Except FormatError _) =
          .ok (e.1, doc.termsIn e.1) := by
    obtain ⟨pair, hpair⟩ := Outcome.ok_of_mapM_ok h he
    simp only [Outcome.bind_ok, Outcome.pure_ok] at hpair
    obtain ⟨terms, hterms, rfl⟩ := hpair
    refine ⟨fun v hv => Outcome.ok_of_mapM_ok hterms hv, ?_⟩
    rw [Document.termsIn, Document.valuesOf, Table.mem_entries_iff.mp he, Option.getD_some, hterms,
      Outcome.filterMap_toOption_of_mapM_ok hterms]
    rfl
  constructor
  · have hmap := Outcome.mapM_ok.mp h
    rw [List.map_congr_left fun e he => (each e he).2] at hmap
    refine (List.map_inj_right fun _ _ => Except.ok.inj).mp (hmap.symm.trans ?_)
    rw [List.map_map]
    rfl
  · intro field v hv
    rw [Document.valuesOf] at hv
    cases hget : doc.fields.get? field with
    | none => simp [hget] at hv
    | some values =>
      rw [hget, Option.getD_some] at hv
      exact (each (field, values) (Table.mem_entries_iff.mpr hget)).1 v hv

theorem exists_fieldTerms_iff {doc : Document} {field : String} (P : List String → Prop)
    (hP : ¬ P []) :
    (∃ e ∈ doc.fields.entries.map fun e => (e.1, doc.termsIn e.1), e.1 = field ∧ P e.2) ↔
      P (doc.termsIn field) := by
  simp only [List.mem_map]
  constructor
  · rintro ⟨_, ⟨e, -, rfl⟩, rfl, h⟩
    exact h
  · intro h
    cases hget : doc.fields.get? field with
    | none => exact absurd (by simpa [Document.termsIn, Document.valuesOf, hget] using h) hP
    | some values =>
      exact ⟨_, ⟨(field, values), Table.mem_entries_iff.mpr hget, rfl⟩, rfl, h⟩

theorem termsIn_eq_nil_iff {doc : Document} {field : String}
    (h : ∀ v ∈ doc.valuesOf field, ∃ term, v.term = .ok term) :
    doc.termsIn field = [] ↔ doc.valuesOf field = [] := by
  rw [Document.termsIn, List.filterMap_eq_nil_iff, List.eq_nil_iff_forall_not_mem]
  refine forall₂_congr fun v hv => ?_
  obtain ⟨term, hterm⟩ := h v hv
  simp [hterm, Except.toOption]

/-- The terms to sort a document by: for each field with a value, the term of its first. -/
def sortKeysOf (fieldTerms : List (String × List String)) : Table String :=
  .ofList (fieldTerms.filterMap fun e => e.2.head?.map (e.1, ·))

/-- What adding a document does. -/
theorem add_ok {s s' : Segment} {doc : Document} (h : s.add doc = .ok s') :
    s.docs.size < Word.size32 ∧
      ∃ fieldTerms, termsOf doc = .ok fieldTerms ∧ s' =
        { s with
          docs := s.docs.push ⟨storedOf doc, sortKeysOf fieldTerms⟩
          fields := enter s.fields s.docs.size fieldTerms
          live := s.live.insert s.docs.size } := by
  simp only [add] at h
  split at h
  · cases h
  · rename_i hfew
    split at h
    · cases h
    · rename_i fieldTerms hterms
      exact ⟨Nat.lt_of_not_le hfew, fieldTerms, hterms, (Except.ok.inj h).symm⟩

/-- What each addition keeps holds of a segment that is built. -/
theorem build_induction {P : Segment → List Document → Prop}
    (hinitial : ∀ version, P { initial with version := version } [])
    (hadd : ∀ {s s' docs doc}, P s docs → s.add doc = .ok s' → P s' (docs ++ [doc]))
    {version : Nat} {docs : List Document} {s : Segment} (h : build version docs = .ok s) :
    P s docs := by
  have hmore (more : List Document) : ∀ {s docs}, P s docs → ∀ {s'}, more.foldlM add s = .ok s' →
      P s' (docs ++ more) := by
    induction more with
    | nil =>
      intro s docs hP s' h
      rw [List.foldlM_nil, Outcome.pure_ok] at h
      rwa [← h, List.append_nil]
    | cons doc more ih =>
      intro s docs hP s' h
      rw [List.foldlM_cons, Outcome.bind_ok] at h
      obtain ⟨mid, hmid, hrest⟩ := h
      rw [List.append_cons]
      exact ih (hadd hP hmid) hrest
  exact hmore docs (hinitial version) h

-- ---------------------------------------------------------------------------
-- Documents shown
-- ---------------------------------------------------------------------------

/-- A segment shows these documents, each at its place. -/
structure Represents (s : Segment) (docs : List Document) : Prop where
  stored : s.docs.toList.map (·.stored) = docs.map storedOf
  live : ∀ i, i ∈ s.live ↔ i < docs.length
  terms : ∀ field term i, i ∈ s.withTerm field term ↔
    ∃ doc, docs[i]? = some doc ∧ term ∈ doc.termsIn field
  present : ∀ field i, i ∈ s.withField field ↔
    ∃ doc, docs[i]? = some doc ∧ doc.valuesOf field ≠ []
  indexable : ∀ doc ∈ docs, ∀ field, ∀ v ∈ doc.valuesOf field, ∃ term, v.term = .ok term

theorem Represents.size_eq {s : Segment} {docs : List Document} (h : s.Represents docs) :
    s.docs.size = docs.length := by
  have := congrArg List.length h.stored
  simpa using this

theorem initial_represents (version : Nat) :
    ({ initial with version := version } : Segment).Represents [] where
  stored := rfl
  live i := by simp [initial]
  terms field term i := by
    change i ∈ (∅ : DocSet) ↔ _
    simp
  present field i := by
    change i ∈ (∅ : DocSet) ↔ _
    simp
  indexable doc hdoc := by cases hdoc

theorem exists_getElem?_append_singleton {docs : List Document} {doc : Document} {i : Nat}
    {P : Document → Prop} : (∃ d, (docs ++ [doc])[i]? = some d ∧ P d) ↔
      (∃ d, docs[i]? = some d ∧ P d) ∨ i = docs.length ∧ P doc := by
  rcases Nat.lt_trichotomy i docs.length with hi | rfl | hi
  · rw [List.getElem?_append_left hi]
    simp [Nat.ne_of_lt hi]
  · simp
  · rw [List.getElem?_eq_none (by simp; omega), List.getElem?_eq_none (by omega)]
    simp [Nat.ne_of_gt hi]

/-- One more document keeps what a segment shows. -/
theorem add_represents {s s' : Segment} {docs : List Document} {doc : Document}
    (h : s.Represents docs) (hadd : s.add doc = .ok s') : s'.Represents (docs ++ [doc]) := by
  obtain ⟨-, fieldTerms, hterms, rfl⟩ := add_ok hadd
  obtain ⟨rfl, hvalues⟩ := termsOf_ok hterms
  refine ⟨?_, ?_, ?_, ?_, ?_⟩
  · simp [h.stored]
  · intro i
    simp only [DocSet.mem_insert, h.live, h.size_eq, List.length_append, List.length_singleton]
    omega
  · intro field term i
    rw [exists_getElem?_append_singleton, ← h.terms, withTerm_eq, withTerm_eq, dictionary,
      dictionary, index?, index?, mem_withTerm_enter, h.size_eq,
      exists_fieldTerms_iff (term ∈ ·) (by simp)]
  · intro field i
    rw [exists_getElem?_append_singleton, ← h.present, withField_eq, withField_eq, dictionary,
      dictionary, index?, index?, mem_present_enter, h.size_eq,
      exists_fieldTerms_iff (· ≠ []) (by simp), ne_eq, ne_eq, termsIn_eq_nil_iff (hvalues field)]
  · intro d hd
    rcases List.mem_append.mp hd with hd | hd
    · exact h.indexable d hd
    · rw [List.mem_singleton.mp hd]
      exact hvalues

/-- A segment shows the documents it is built of. -/
theorem build_represents {version : Nat} {docs : List Document} {s : Segment}
    (h : build version docs = .ok s) : s.Represents docs :=
  build_induction initial_represents add_represents h

-- ---------------------------------------------------------------------------
-- Scans
-- ---------------------------------------------------------------------------

namespace Represents

variable {s : Segment} {docs : List Document}

/-- A scan for the terms that satisfy `p` finds the documents with such a term. -/
theorem mem_postingsOf_filter (h : s.Represents docs) (field : String) (p : String → Bool)
    (i : Nat) :
    i ∈ postingsOf ((s.dictionary field).terms.entries.filter fun e => p e.1) ↔
      ∃ doc, docs[i]? = some doc ∧ (doc.termsIn field).any p = true := by
  simp only [FieldIndex.mem_postingsOf_filter, ← withTerm_eq, h.terms, List.any_eq_true]
  constructor
  · rintro ⟨term, hp, doc, hdoc, hterm⟩
    exact ⟨doc, hdoc, term, hterm, hp⟩
  · rintro ⟨doc, hdoc, term, hterm, hp⟩
    exact ⟨term, hp, doc, hdoc, hterm⟩

theorem mem_termsUnder (h : s.Represents docs) (field stem : String) (i : Nat) :
    i ∈ postingsOf (s.termsUnder field stem) ↔ ∃ doc, docs[i]? = some doc ∧
      (doc.termsIn field).any (fun term => stem.toList.isPrefixOf term.toList) = true := by
  rw [termsUnder_eq, FieldIndex.entriesUnder_eq_filter]
  exact h.mem_postingsOf_filter field (fun term => stem.toList.isPrefixOf term.toList) i

theorem mem_termsBetween (h : s.Represents docs) (field : String) (lower upper : Bound) (i : Nat) :
    i ∈ postingsOf (s.termsBetween field lower upper) ↔ ∃ doc, docs[i]? = some doc ∧
      (doc.termsIn field).any
        (fun term => lower.admitsFromBelow term && upper.admitsFromAbove term) = true := by
  rw [termsBetween_eq, FieldIndex.entriesBetween_eq_filter]
  exact h.mem_postingsOf_filter field (fun term =>
    lower.admitsFromBelow term && upper.admitsFromAbove term) i

theorem mem_termsMatching (h : s.Represents docs) (field pattern : String) (i : Nat) :
    i ∈ postingsOf (s.termsMatching field pattern) ↔ ∃ doc, docs[i]? = some doc ∧
      (doc.termsIn field).any
        (fun term => decide (Glob.Matches pattern.toList term.toList)) = true := by
  rw [termsMatching_eq, FieldIndex.entriesMatching_eq_filter]
  exact h.mem_postingsOf_filter field (fun term =>
    decide (Glob.Matches pattern.toList term.toList)) i

end Represents

end Segment

end GuardedSearch
