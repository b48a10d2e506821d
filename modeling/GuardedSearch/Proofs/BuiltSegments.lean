import GuardedSearch.Proofs.CheckedReads
import GuardedSearch.Proofs.Enumeration
import GuardedSearch.Proofs.Publications
import GuardedSearch.Proofs.Ranking
import GuardedSearch.Proofs.StoredForms

/-!
# What a segment holds

A segment keeps the same documents five times over: as the terms of each field, as the postings of
each term, as the documents that have a field, as what is stored of each document and as the terms
to sort it by. `Holds` says how these agree with the documents and so with each other, and
`build_holds` that a segment which is built of documents with index terms holds them.
-/

namespace GuardedSearch

/-- The value of the field has this term. -/
def Document.HasTerm (doc : Document) (field term : String) : Prop :=
  ∃ v ∈ doc.valuesOf field, v.term = .ok term

theorem Document.mem_termsIn {doc : Document} {field term : String} :
    term ∈ doc.termsIn field ↔ doc.HasTerm field term := by
  simp only [termsIn, List.mem_filterMap, Outcome.toOption_eq_some, HasTerm]

/-- A field lists the terms of its values, each with the documents that have it. -/
structure FieldLayout.Lists (layout : FieldLayout) (docs : List Document) (field : String) :
    Prop where
  /-- Every term stands once, and before those with greater bytes. -/
  ascending : (layout.dictionary.map fun e => Text.bytes e.1).Pairwise (· < ·)
  /-- The places are counted from zero, and there is one for each posting set. -/
  places : layout.dictionary.map (·.2) = List.range layout.postings.size
  terms : ∀ term, term ∈ layout.dictionary.map (·.1) ↔ ∃ doc ∈ docs, doc.HasTerm field term
  postings : ∀ term place, (term, place) ∈ layout.dictionary →
    ∃ found, layout.postings[place]? = some found ∧ (∃ i, i ∈ found) ∧
      ∀ i, i ∈ found ↔ ∃ doc, docs[i]? = some doc ∧ doc.HasTerm field term

namespace Segment

/-- What is kept of the document at a place. A field is stored, and has a term to sort by, just
when the segment lists the document among those that have the field. -/
structure Keeps (s : Segment) (i : Nat) (doc : Document) (kept : SegmentDoc) : Prop where
  stored_iff : ∀ field, kept.stored.contains field = true ↔ i ∈ s.withField field
  stored : ∀ field values, kept.stored.get? field = some values →
    values = (doc.valuesOf field).map FieldValue.stored
  sortKeys_iff : ∀ field, kept.sortKeys.contains field = true ↔ i ∈ s.withField field
  sortKeys : ∀ field term, kept.sortKeys.get? field = some term →
    ∃ v, doc.field? field = some v ∧ v.term = .ok term

/-- The representation of documents by a segment. -/
structure Holds (s : Segment) (docs : List Document) : Prop where
  live : ∀ i, i ∈ s.live ↔ i < docs.length
  /-- There is a dictionary for every field that a document names, with values or without. -/
  named : ∀ field, (∃ index, s.index? field = some index) ↔
    ∃ doc ∈ docs, doc.fields.contains field = true
  lists : ∀ field index, s.index? field = some index → index.layout.Lists docs field
  present : ∀ field index, s.index? field = some index →
    index.present = DocSet.unionAll index.layout.postings.toList
  size : s.docs.size = docs.length
  keeps : ∀ i doc, docs[i]? = some doc → ∃ kept, s.docs[i]? = some kept ∧ s.Keeps i doc kept

-- ---------------------------------------------------------------------------
-- Fields that are named
-- ---------------------------------------------------------------------------

theorem isSome_enter {fields : Table FieldIndex} {ordinal : Nat}
    {fieldTerms : List (String × List String)} {field : String} :
    ((enter fields ordinal fieldTerms).get? field).isSome = true ↔
      (fields.get? field).isSome = true ∨ ∃ e ∈ fieldTerms, e.1 = field := by
  unfold enter
  induction fieldTerms generalizing fields with
  | nil => simp
  | cons e fieldTerms ih =>
    rw [List.foldl_cons, ih, Table.get?_update]
    by_cases he : field = e.1
    · simp [he]
    · simp [he, Ne.symm he]

theorem contains_iff {doc : Document} {field : String} :
    doc.fields.contains field = true ↔ ∃ e ∈ doc.fields.entries, e.1 = field := by
  rw [Table.contains, Option.isSome_iff_exists]
  constructor
  · rintro ⟨values, hget⟩
    exact ⟨(field, values), Table.mem_entries_iff.mpr hget, rfl⟩
  · rintro ⟨e, he, rfl⟩
    exact ⟨e.2, Table.mem_entries_iff.mp he⟩

/-- A segment has a dictionary for the fields that its documents name. -/
theorem build_named {version : Nat} {docs : List Document} {s : Segment}
    (h : build version docs = .ok s) (field : String) :
    (s.index? field).isSome = true ↔ ∃ doc ∈ docs, doc.fields.contains field = true := by
  refine build_induction (P := fun s docs => (s.index? field).isSome = true ↔
    ∃ doc ∈ docs, doc.fields.contains field = true) ?_ ?_ h
  · exact fun version => by simp [index?, initial, Table.get?, EmptyCollection.emptyCollection,
      Table.empty]
  -- a document enters every field that it names, also one without terms
  · intro s s' docs doc ih hadd
    obtain ⟨-, fieldTerms, hterms, rfl⟩ := add_ok hadd
    obtain ⟨rfl, -⟩ := termsOf_ok hterms
    rw [index?] at ih ⊢
    rw [isSome_enter, ih]
    simp only [List.mem_append, List.mem_singleton, or_and_right, exists_or, exists_eq_left,
      contains_iff, List.mem_map, exists_exists_and_eq_and]

-- ---------------------------------------------------------------------------
-- Dictionaries and postings
-- ---------------------------------------------------------------------------

section Fields

variable {s : Segment} {docs : List Document} {field : String} {index : FieldIndex}

theorem dictionary_eq (h : s.index? field = some index) : s.dictionary field = index := by
  rw [dictionary, h, Option.getD_some]

theorem mem_layout_iff {term : String} {place : Nat} :
    (term, place) ∈ index.layout.dictionary ↔
      ∃ found, index.terms.entries[place]? = some (term, found) := by
  rw [FieldIndex.layout, List.mem_mapIdx]
  constructor
  · rintro ⟨i, hi, heq⟩
    obtain ⟨rfl, rfl⟩ := Prod.mk.inj heq
    exact ⟨_, List.getElem?_eq_getElem hi⟩
  · rintro ⟨found, hfound⟩
    obtain ⟨hlt, heq⟩ := List.getElem?_eq_some_iff.mp hfound
    exact ⟨place, hlt, by rw [heq]⟩

theorem map_fst_layout : index.layout.dictionary.map (·.1) = index.terms.keys := by
  refine List.ext_getElem (by simp [FieldIndex.layout, Table.keys]) fun i hi hi' => ?_
  simp [FieldIndex.layout, Table.keys]

theorem mem_postings_iff (h : s.Represents docs) (hindex : s.index? field = some index)
    {e : String × DocSet} (he : e ∈ index.terms.entries) (i : Nat) :
    i ∈ e.2 ↔ ∃ doc, docs[i]? = some doc ∧ doc.HasTerm field e.1 := by
  rw [← dictionary_eq hindex] at he
  rw [h.selects_postings he i]
  simp only [decide_eq_true_eq, Document.mem_termsIn]

theorem lists_layout (h : s.Represents docs) (hpopulated : (s.dictionary field).Populated)
    (hindex : s.index? field = some index) : index.layout.Lists docs field := by
  have hdictionary (term : String) := @h.mem_dictionary_iff _ _ _ hpopulated term
  rw [dictionary_eq hindex] at hpopulated hdictionary
  refine ⟨?_, ?_, fun term => ?_, fun term place hmem => ?_⟩
  · have hkeys := index.pairwise_keys
    rwa [FieldIndex.keys, ← map_fst_layout, List.map_map] at hkeys
  · refine List.ext_getElem (by simp [FieldIndex.layout, Table.values]) fun i hi hi' => ?_
    simp [FieldIndex.layout]
  · simp only [map_fst_layout, Table.keys, ← Document.mem_termsIn, ← hdictionary term,
      List.mem_map, Prod.exists, exists_and_right, exists_eq_right]
  · obtain ⟨found, hfound⟩ := mem_layout_iff.mp hmem
    have hentry := List.mem_of_getElem? hfound
    refine ⟨found, ?_, hpopulated term found (Table.mem_entries_iff.mp hentry),
      mem_postings_iff h hindex hentry⟩
    simp [FieldIndex.layout, Table.values, hfound]

/-- A document has a field just when it has one of the terms of the field. -/
theorem present_eq_unionAll (h : s.Represents docs) (hindex : s.index? field = some index) :
    index.present = DocSet.unionAll index.layout.postings.toList := by
  ext i
  have hpresent := h.present field i
  have hterm (term : String) := h.terms field term i
  simp only [withField_eq, withTerm_eq, dictionary_eq hindex] at hpresent hterm
  rw [hpresent, DocSet.mem_unionAll]
  change _ ↔ ∃ found ∈ index.terms.values, i ∈ found
  simp only [Table.values, List.mem_map]
  constructor
  · rintro ⟨doc, hdoc, hvalues⟩
    obtain ⟨v, hv⟩ := List.exists_mem_of_ne_nil _ hvalues
    obtain ⟨term, hvterm⟩ := h.indexable doc (List.mem_of_getElem? hdoc) field v hv
    have hmem := (hterm term).mpr ⟨doc, hdoc, Document.mem_termsIn.mpr ⟨v, hv, hvterm⟩⟩
    rw [FieldIndex.withTerm] at hmem
    cases hget : index.terms.get? term with
    | none => simp [hget] at hmem
    | some found =>
      rw [hget, Option.getD_some] at hmem
      exact ⟨found, ⟨(term, found), Table.mem_entries_iff.mpr hget, rfl⟩, hmem⟩
  · rintro ⟨_, ⟨e, he, rfl⟩, hi⟩
    obtain ⟨doc, hdoc, v, hv, -⟩ := (mem_postings_iff h hindex he i).mp hi
    exact ⟨doc, hdoc, List.ne_nil_of_mem hv⟩

end Fields

-- ---------------------------------------------------------------------------
-- Documents
-- ---------------------------------------------------------------------------

theorem getElem?_stored {s : Segment} {docs : List Document} (h : s.Represents docs) {i : Nat}
    {doc : Document} (hdoc : docs[i]? = some doc) :
    ∃ kept, s.docs[i]? = some kept ∧ kept.stored = storedOf doc := by
  have hstored := congrArg (·[i]?) h.stored
  simp only [List.getElem?_map, hdoc, Option.map_some, Array.getElem?_toList] at hstored
  exact Option.map_eq_some_iff.mp hstored

theorem keeps_of_represents {s : Segment} {docs : List Document} {version : Nat}
    (hbuild : build version docs = .ok s) {i : Nat} {doc : Document}
    (hdoc : docs[i]? = some doc) : ∃ kept, s.docs[i]? = some kept ∧ s.Keeps i doc kept := by
  have h := build_represents hbuild
  obtain ⟨kept, hkept, hstored⟩ := getElem?_stored h hdoc
  have hpresent (field : String) : i ∈ s.withField field ↔ doc.valuesOf field ≠ [] := by
    rw [h.present]
    simp [hdoc]
  have hkeys (field : String) : kept.sortKeys.get? field = doc.firstTerm? field := by
    have hkey := build_sortKey? hbuild field i
    rwa [sortKey?, hkept, Option.bind_some, firstTermAt, hdoc, Option.bind_some] at hkey
  have hfirst (field term : String) : doc.firstTerm? field = some term ↔
      ∃ v, doc.field? field = some v ∧ v.term = .ok term := by
    rw [Document.firstTerm?, Option.bind_eq_some_iff]
    simp only [Outcome.toOption_eq_some]
  refine ⟨kept, hkept, fun field => ?_, fun field values hget => ?_, fun field => ?_,
    fun field term hget => ?_⟩
  · rw [hpresent, Table.contains, hstored, get?_storedOf]
    split
    · next hnil => simp [hnil]
    · next hvalues => simp [hvalues]
  · rw [hstored, get?_storedOf] at hget
    split at hget
    · cases hget
    · exact (Option.some.inj hget).symm
  · rw [hpresent, Table.contains, hkeys, Option.isSome_iff_exists]
    simp only [hfirst]
    constructor
    · rintro ⟨term, v, hv, -⟩ hnil
      rw [Document.field?, hnil] at hv
      cases hv
    · intro hvalues
      obtain ⟨v, rest, hcons⟩ := List.exists_cons_of_ne_nil hvalues
      obtain ⟨term, hterm⟩ := h.indexable doc (List.mem_of_getElem? hdoc) field v (by simp [hcons])
      exact ⟨term, v, by rw [Document.field?, hcons]; rfl, hterm⟩
  · rw [hkeys] at hget
    exact (hfirst field term).mp hget

/-- A segment is built of any documents that have index terms, as long as there is an ordinal for
each, and holds them. The keys of its dictionaries are taken by any writer that takes keys in the
order of their bytes. -/
theorem build_holds (version : Nat) {docs : List Document} (hsize : docs.length ≤ Word.size32)
    (hterms : ∀ doc ∈ docs, doc.Indexable) :
    ∃ s, build version docs = .ok s ∧ s.version = version ∧ s.Holds docs ∧
      ∀ {δ ε : Type} (writer : KeyWriter δ ε), writer.TakesAscending →
        ∀ field index, s.index? field = some index →
          ∃ written, writer.write index.keys = .ok written := by
  obtain ⟨s, hbuild⟩ := (exists_build_iff version hterms).mpr hsize
  have h := build_represents hbuild
  refine ⟨s, hbuild, build_version hbuild, ⟨h.live, fun field => ?_, fun field index hindex => ?_,
    fun field index hindex => present_eq_unionAll h hindex, h.size_eq,
    fun i doc hdoc => keeps_of_represents hbuild hdoc⟩,
    fun writer hwriter _ index _ => hwriter.exists_write index.pairwise_keys⟩
  · rw [← Option.isSome_iff_exists]
    exact build_named hbuild field
  · exact lists_layout h (build_populated hbuild field) hindex

theorem indexable_of_values {doc : Document}
    (h : ∀ v ∈ doc.fields.values.flatten, v.IsIndexable) : doc.Indexable := fun field v hv =>
  FieldValue.exists_term_of_isIndexable (h v (Index.mem_values_iff.mpr ⟨field, hv⟩))

/-- A document with a repeated value, one whose field has no value, and one that shares a term
with the first. -/
def tagged : List Document :=
  [((Document.empty.addValue "tag" (.text "b")).addValue "tag" (.text "a")).addValue "tag"
      (.text "b"),
    ⟨(∅ : Table (List FieldValue)).update "note" fun _ => []⟩,
    (Document.empty.addValue "tag" (.text "b")).addValue "size" (.int32 2)]

/-- The segment of the three documents has a dictionary for each of three fields, one of them
without terms. -/
theorem build_holds_tagged : ∃ s tags written, build 7 tagged = .ok s ∧ s.version = 7 ∧
    s.Holds tagged ∧ s.index? "tag" = some tags ∧
      tags.layout.dictionary = [("a", 0), ("b", 1)] ∧
      tags.layout.postings.toList.map DocSet.toList = [[0], [0, 2]] ∧
      (s.index? "note").map FieldIndex.keys = some [] ∧
      KeyWriter.strict.write tags.keys = .ok written := by
  have hterms : ∀ doc ∈ tagged, doc.Indexable := by
    have hvalues : ∀ doc ∈ tagged, ∀ v ∈ doc.fields.values.flatten, v.IsIndexable := by
      decide +kernel
    exact fun doc hdoc => indexable_of_values (hvalues doc hdoc)
  obtain ⟨s, hbuild, hversion, hholds, hwrites⟩ := build_holds 7 (by decide) hterms
  have htags : (build 7 tagged).toOption.bind (fun s => (s.index? "tag").map fun tags =>
      (tags.layout.dictionary, tags.layout.postings.toList.map DocSet.toList)) =
        some ([("a", 0), ("b", 1)], [[0], [0, 2]]) := by
    decide +kernel
  have hnotes : (build 7 tagged).toOption.map (fun s => (s.index? "note").map FieldIndex.keys) =
      some (some []) := by
    decide +kernel
  rw [hbuild] at htags hnotes
  obtain ⟨tags, hindex, hlayout⟩ := Option.map_eq_some_iff.mp htags
  obtain ⟨hdictionary, hpostings⟩ := Prod.mk.inj hlayout
  obtain ⟨written, hwritten⟩ := hwrites _ KeyWriter.strict_takesAscending "tag" tags hindex
  exact ⟨s, tags, written, hbuild, hversion, hholds, hindex, hdictionary, hpostings,
    Option.some.inj hnotes, hwritten⟩

end Segment

end GuardedSearch
