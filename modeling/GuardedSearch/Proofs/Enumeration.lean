import GuardedSearch.Proofs.Expressions
import GuardedSearch.Proofs.NaiveScan

/-!
# Enumerated terms

`enumerate_exact` says which terms of a field an enumeration lists: those of the documents that
the pattern matches, in ascending order, each with the documents that have it. The scan of the
dictionary's bytes with the expression of the pattern, which ends early, lists the same.
-/

namespace GuardedSearch

-- ---------------------------------------------------------------------------
-- Scans of bytes
-- ---------------------------------------------------------------------------

/-- A scan of the bytes of a dictionary: it begins at the stem, ends with the first term that
does not begin with it, and keeps what `keep` admits. -/
def FieldIndex.scanBytes (index : FieldIndex) (stem : String) (keep : String → Bool) :
    List (String × DocSet) :=
  ((index.terms.entries.dropWhile fun e => decide (Text.bytes e.1 < Text.bytes stem)).takeWhile
    fun e => (Text.bytes stem).isPrefixOf (Text.bytes e.1)).filter fun e => keep e.1

/-- The terms of a field that a search for the expression of the pattern admits, scanned from the
literal start of the pattern. -/
def Segment.scanTerms (s : Segment) (isMatch : String → String → Bool) (field pattern : String) :
    List TermPostings :=
  match s.index? field with
  | none => []
  | some index =>
    (index.scanBytes (Glob.literalStart pattern) (isMatch (Expression.sourceOf pattern))).map
      fun e => ⟨e.1, e.2⟩

theorem FieldIndex.scanBytes_eq {isMatch : String → String → Bool}
    (h : Expression.Decides isMatch) (index : FieldIndex) (pattern : String) :
    index.scanBytes (Glob.literalStart pattern) (isMatch (Expression.sourceOf pattern)) =
      index.entriesMatching pattern := by
  have hprefix (stem term : String) :
      (Text.bytes stem).isPrefixOf (Text.bytes term) = stem.toList.isPrefixOf term.toList := by
    rw [Bool.eq_iff_iff, List.isPrefixOf_iff_prefix, List.isPrefixOf_iff_prefix,
      Text.bytes_prefix_iff]
  have hkeep (term : String) :
      isMatch (Expression.sourceOf pattern) term = Glob.isMatch pattern term := by
    have hread := Expression.ofSource?_sourceOf pattern
    rw [Bool.eq_iff_iff, h _ _ hread, Expression.finds_sourceOf_iff hread, Glob.isMatch_iff]
  simp only [scanBytes, entriesMatching, entriesUnder, entriesFrom, Text.bytes_lt_iff, hprefix,
    hkeep]

theorem Segment.scanTerms_eq {isMatch : String → String → Bool} (h : Expression.Decides isMatch)
    (s : Segment) (field pattern : String) : s.scanTerms isMatch field pattern =
      (s.termsMatching field pattern).map fun e => ⟨e.1, e.2⟩ := by
  unfold scanTerms termsMatching
  cases s.index? field with
  | none => rfl
  | some index => simp [FieldIndex.scanBytes_eq h]

-- ---------------------------------------------------------------------------
-- Terms without documents
-- ---------------------------------------------------------------------------

/-- Every term of the dictionary belongs to some document. -/
def FieldIndex.Populated (index : FieldIndex) : Prop :=
  ∀ term postings, index.terms.get? term = some postings → ∃ i, i ∈ postings

theorem FieldIndex.addTerms_populated {index : FieldIndex} (h : index.Populated) (ordinal : Nat)
    (terms : List String) : (index.addTerms ordinal terms).Populated := by
  simp only [Populated, addTerms] at h ⊢
  generalize index.terms = table at h
  induction terms generalizing table with
  | nil => exact h
  | cons term terms ih =>
    refine ih _ fun other postings hget => ?_
    rw [Table.get?_update] at hget
    split at hget
    · cases hget
      exact ⟨ordinal, by simp⟩
    · exact h other postings hget

namespace Segment

theorem enter_populated {fields : Table FieldIndex}
    (h : ∀ field, ((fields.get? field).getD .empty).Populated) (ordinal : Nat)
    (fieldTerms : List (String × List String)) (field : String) :
    (((enter fields ordinal fieldTerms).get? field).getD .empty).Populated := by
  unfold enter
  induction fieldTerms generalizing fields with
  | nil => exact h field
  | cons e fieldTerms ih =>
    refine ih fun other => ?_
    rw [Table.get?_update]
    split
    · exact FieldIndex.addTerms_populated (h e.1) ordinal e.2
    · exact h other

theorem build_populated {version : Nat} {docs : List Document} {s : Segment}
    (h : build version docs = .ok s) (field : String) : (s.dictionary field).Populated := by
  refine build_induction (P := fun s _ => ∀ field, (s.dictionary field).Populated) ?_ ?_ h field
  · rintro version field term postings ⟨⟩
  · intro s s' docs doc hs hadd field
    obtain ⟨-, fieldTerms, -, rfl⟩ := add_ok hadd
    exact enter_populated hs s.docs.size fieldTerms field

-- ---------------------------------------------------------------------------
-- Dictionaries and documents
-- ---------------------------------------------------------------------------

namespace Represents

variable {s : Segment} {docs : List Document} {field : String}

/-- The postings of a term are the documents that have it. -/
theorem selects_postings (h : s.Represents docs) {e : String × DocSet}
    (he : e ∈ (s.dictionary field).terms.entries) :
    e.2.Selects docs fun doc => decide (e.1 ∈ doc.termsIn field) := by
  intro i
  have hterms := h.terms field e.1 i
  rw [withTerm_eq, FieldIndex.withTerm, Table.mem_entries_iff.mp he] at hterms
  simpa using hterms

/-- The terms of a dictionary are those of the documents. -/
theorem mem_dictionary_iff (h : s.Represents docs) (hpopulated : (s.dictionary field).Populated)
    {term : String} : (∃ postings, (term, postings) ∈ (s.dictionary field).terms.entries) ↔
      ∃ doc ∈ docs, term ∈ doc.termsIn field := by
  constructor
  · rintro ⟨postings, he⟩
    obtain ⟨i, hi⟩ := hpopulated term postings (Table.mem_entries_iff.mp he)
    obtain ⟨doc, hdoc, hterm⟩ := (h.selects_postings he i).mp hi
    exact ⟨doc, List.mem_of_getElem? hdoc, of_decide_eq_true hterm⟩
  · rintro ⟨doc, hdoc, hterm⟩
    obtain ⟨i, hi⟩ := List.getElem?_of_mem hdoc
    have hmem := (h.terms field term i).mpr ⟨doc, hi, hterm⟩
    rw [withTerm_eq, FieldIndex.withTerm] at hmem
    cases hget : (s.dictionary field).terms.get? term with
    | none => simp [hget] at hmem
    | some postings => exact ⟨postings, Table.mem_entries_iff.mpr hget⟩

end Represents

end Segment

-- ---------------------------------------------------------------------------
-- Enumerations
-- ---------------------------------------------------------------------------

namespace Index

/-- An enumeration on a committed segment lists the terms of the field's values that the pattern
matches as a whole, each once and in the order of the bytes, each with the documents that have it.
It is the scan of the bytes from the pattern's literal start, with any search that finds what the
expression of the pattern finds. -/
theorem enumerate_exact {index committed later : Index} {version : Nat}
    {snapshot : SnapshotHandle} (hcommit : index.commit = (.ok version, committed))
    (hsnapshot : later.segment? snapshot = .ok committed.current) (field pattern : String) :
    ∃ found, later.enumerate snapshot field pattern = .ok found ∧
      found.Pairwise (fun a b => Text.bytes a.term < Text.bytes b.term) ∧
      (∀ term, term ∈ found.map (·.term) ↔
        (∃ doc ∈ index.staged, term ∈ doc.termsIn field) ∧
          Glob.Matches pattern.toList term.toList) ∧
      (∀ e ∈ found, e.postings.Selects index.staged fun doc =>
        decide (e.term ∈ doc.termsIn field)) ∧
      ∀ isMatch, Expression.Decides isMatch →
        committed.current.scanTerms isMatch field pattern = found := by
  have hbuild := commit_build hcommit
  generalize committed.current = s at hsnapshot hbuild ⊢
  have hs := Segment.build_represents hbuild
  have hfound : s.termsMatching field pattern = (s.dictionary field).terms.entries.filter
      fun e => decide (Glob.Matches pattern.toList e.1.toList) := by
    rw [Segment.termsMatching_eq, FieldIndex.entriesMatching_eq_filter]
  refine ⟨(s.termsMatching field pattern).map fun e => ⟨e.1, e.2⟩, ?_, ?_, ?_, ?_, ?_⟩
  · rw [enumerate, hsnapshot]
    rfl
  · rw [hfound, List.pairwise_map]
    refine ((s.dictionary field).terms.sorted.filter _).imp fun hlt => ?_
    exact Text.bytes_lt_iff.mpr hlt
  · intro term
    rw [← hs.mem_dictionary_iff (Segment.build_populated hbuild field), hfound]
    simp
  · intro e he
    obtain ⟨entry, hentry, rfl⟩ := List.mem_map.mp he
    rw [hfound] at hentry
    exact hs.selects_postings (List.mem_filter.mp hentry).1
  · exact fun isMatch hdecides => s.scanTerms_eq hdecides field pattern

/-- Staged documents whose tags have a dot, a line break and a letter of two bytes. -/
def dotted : Index :=
  { empty with
    staged :=
      [(Document.empty.addValue Field.uri (.text "/a")).addValue "tag" (.text ".éb"),
       (Document.empty.addValue Field.uri (.text "/b")).addValue "tag" (.text "aéb"),
       (Document.empty.addValue Field.uri (.text "/c")).addValue "tag" (.text ".\nb+")] }

/-- A dot in a pattern is only a dot, and a line break is a character like others. -/
theorem enumerate_exact_dotted : ∃ found,
    dotted.commit.2.acquire.2.enumerate ⟨1⟩ "tag" ".?b*" = .ok found ∧
      ".éb" ∈ found.map (·.term) ∧ "aéb" ∉ found.map (·.term) ∧ ".\nb+" ∈ found.map (·.term) ∧
      dotted.commit.2.current.scanTerms Expression.isMatch "tag" ".?b*" = found := by
  have hcommit : dotted.commit = (.ok 1, dotted.commit.2) := rfl
  have hsnapshot : dotted.commit.2.acquire.2.segment? ⟨1⟩ = .ok dotted.commit.2.current := rfl
  obtain ⟨found, hfound, -, hterms, -, hscan⟩ := enumerate_exact hcommit hsnapshot "tag" ".?b*"
  refine ⟨found, hfound, ?_, ?_, ?_, hscan _ Expression.isMatch_decides⟩
  · exact (hterms _).mpr (by decide)
  · exact fun h => absurd ((hterms _).mp h) (by decide)
  · exact (hterms _).mpr (by decide)

end Index

end GuardedSearch
