import GuardedSearch.Proofs.Histories
import GuardedSearch.Proofs.Meaning

/-!
# Accepted documents

What an index asks of a document before it stages it, by `fault?_eq_none_iff`. What it has
accepted it can publish: a commit fails only when there are more documents than ordinals
(`Reachable.commit_ok_iff`).
-/

namespace GuardedSearch

-- ---------------------------------------------------------------------------
-- Additions
-- ---------------------------------------------------------------------------

namespace Index

variable {doc : Document} {index index' : Index}

theorem add_ok_iff : index.add doc = .ok index' ↔
    fault? doc = none ∧ index' = { index with staged := stage doc index.staged } := by
  rw [add]
  cases fault? doc with
  | none => simp [eq_comm]
  | some e => simp

theorem mem_values_iff {v : FieldValue} :
    v ∈ doc.fields.values.flatten ↔ ∃ field, v ∈ doc.valuesOf field := by
  simp only [Table.values, List.mem_flatten, List.mem_map]
  constructor
  · rintro ⟨_, ⟨e, he, rfl⟩, hv⟩
    refine ⟨e.1, ?_⟩
    rwa [Document.valuesOf, Table.mem_entries_iff.mp he]
  · rintro ⟨field, hv⟩
    rw [Document.valuesOf] at hv
    cases hget : doc.fields.get? field with
    | none => simp [hget] at hv
    | some values =>
      rw [hget, Option.getD_some] at hv
      exact ⟨values, ⟨(field, values), Table.mem_entries_iff.mpr hget, rfl⟩, hv⟩

/-- A document is accepted if it has a text uri, all its resource numbers are integers that are
not negative, and every value has an index term. -/
theorem fault?_eq_none_iff : fault? doc = none ↔
    (uriOf? doc).isSome ∧
      (∀ name ∈ [Field.id, Field.ancestorIds], ∀ v ∈ doc.valuesOf name, isResourceId v = true) ∧
      doc.Indexable := by
  have hterms : (∀ v ∈ doc.fields.values.flatten, ∃ term, v.term = .ok term) ↔ doc.Indexable := by
    simp only [mem_values_iff, Document.Indexable]
    constructor
    · exact fun h field v hv => h v ⟨field, hv⟩
    · rintro h v ⟨field, hv⟩
      exact h field v hv
  rw [fault?]
  cases uriOf? doc with
  | none => simp
  | some uri =>
    simp only [Option.isNone_some, Bool.false_eq_true, ↓reduceIte, Option.orElse_eq_orElse,
      Option.orElse_eq_or, Option.or_eq_none_iff, Option.map_eq_none_iff, List.find?_eq_none,
      Bool.not_eq_true', Bool.not_eq_false, List.findSome?_eq_none_iff, ← hterms,
      Option.isSome_some, true_and, List.forall_mem_cons, List.not_mem_nil, false_implies,
      implies_true, and_true, and_assoc]
    refine and_congr_right fun _ => and_congr_right fun _ => forall₂_congr fun v _ => ?_
    cases v.term <;> simp

theorem indexable_of_add (h : index.add doc = .ok index') : doc.Indexable :=
  (fault?_eq_none_iff.mp (add_ok_iff.mp h).1).2.2

theorem mem_stage {docs : List Document} {d : Document} (h : d ∈ stage doc docs) :
    d = doc ∨ d ∈ docs := by
  induction docs with
  | nil => exact .inl (List.mem_singleton.mp h)
  | cons first rest ih =>
    rw [stage] at h
    split at h
    · exact (List.mem_cons.mp h).imp_right (List.mem_cons_of_mem _)
    · rcases List.mem_cons.mp h with rfl | h
      · exact .inr (List.mem_cons_self ..)
      · exact (ih h).imp_right (List.mem_cons_of_mem _)

end Index

-- ---------------------------------------------------------------------------
-- Builds
-- ---------------------------------------------------------------------------

namespace Segment

theorem exists_termsOf {doc : Document} (h : doc.Indexable) :
    ∃ fieldTerms, termsOf doc = .ok fieldTerms := by
  apply Outcome.exists_mapM_ok
  intro e he
  have hterms : ∃ terms, e.2.mapM FieldValue.term = .ok terms := by
    apply Outcome.exists_mapM_ok
    intro v hv
    apply h e.1
    rwa [Document.valuesOf, Table.mem_entries_iff.mp he]
  obtain ⟨terms, hterms⟩ := hterms
  exact ⟨(e.1, terms), by rw [hterms]; rfl⟩

theorem exists_add {s : Segment} {doc : Document} (hsize : s.docs.size < Word.size32)
    (h : doc.Indexable) : ∃ s', s.add doc = .ok s' ∧ s'.docs.size = s.docs.size + 1 := by
  obtain ⟨fieldTerms, hterms⟩ := exists_termsOf h
  simp only [add, if_neg (Nat.not_le_of_lt hsize), hterms]
  exact ⟨_, rfl, Array.size_push ..⟩

theorem exists_foldlM_add {docs : List Document} {s : Segment}
    (hsize : s.docs.size + docs.length ≤ Word.size32) (h : ∀ doc ∈ docs, doc.Indexable) :
    ∃ s', docs.foldlM add s = .ok s' := by
  induction docs generalizing s with
  | nil => exact ⟨s, rfl⟩
  | cons doc docs ih =>
    rw [List.length_cons] at hsize
    obtain ⟨mid, hmid, hcount⟩ := exists_add (s := s) (by omega) (h doc (List.mem_cons_self ..))
    obtain ⟨s', hs'⟩ := ih (s := mid) (by omega) fun d hd => h d (List.mem_cons_of_mem _ hd)
    exact ⟨s', Outcome.bind_ok.mpr ⟨mid, hmid, hs'⟩⟩

/-- A segment is built of documents that have index terms just when there is an ordinal for
each. -/
theorem exists_build_iff (version : Nat) {docs : List Document}
    (h : ∀ doc ∈ docs, doc.Indexable) :
    (∃ s, build version docs = .ok s) ↔ docs.length ≤ Word.size32 := by
  constructor
  · rintro ⟨s, hs⟩
    rw [← (build_represents hs).size_eq]
    exact size_build_le hs
  · intro hsize
    apply exists_foldlM_add _ h
    simpa [initial] using hsize

end Segment

-- ---------------------------------------------------------------------------
-- Commits
-- ---------------------------------------------------------------------------

namespace Index

variable {index index' : Index}

theorem commit_ok_iff {version : Nat} : index.commit.1 = .ok version ↔
    version = index.commits + 1 ∧ ∃ s, Segment.build (index.commits + 1) index.staged = .ok s := by
  rw [commit]
  cases Segment.build (index.commits + 1) index.staged <;> simp [eq_comm]

theorem commit_staged (index : Index) : index.commit.2.staged = index.staged := by
  simp only [commit]
  split <;> rfl

theorem Acts.accepted (h : Acts index index') (hstaged : ∀ doc ∈ index.staged, fault? doc = none) :
    ∀ doc ∈ index'.staged, fault? doc = none := by
  intro d hd
  cases h with
  | add doc h =>
    obtain ⟨haccepted, rfl⟩ := add_ok_iff.mp h
    rcases mem_stage hd with rfl | hd
    · exact haccepted
    · exact hstaged d hd
  | delete uri => exact hstaged d (List.mem_filter.mp hd).1
  | commit => exact hstaged d (index.commit_staged ▸ hd)
  | acquire => exact hstaged d hd
  | release snapshot => exact hstaged d hd

/-- What is staged has been accepted. -/
theorem Reachable.accepted (h : index.Reachable) : ∀ doc ∈ index.staged, fault? doc = none := by
  induction h with
  | refl =>
    intro doc hdoc
    cases hdoc
  | tail _ hact ih => exact hact.accepted ih

theorem Reachable.indexable (h : index.Reachable) : ∀ doc ∈ index.staged, doc.Indexable :=
  fun doc hdoc => (fault?_eq_none_iff.mp (h.accepted doc hdoc)).2.2

/-- A commit publishes what is staged, just when there is an ordinal for each document. -/
theorem Reachable.commit_ok_iff (h : index.Reachable) : index.commit.1 = .ok (index.commits + 1) ↔
    index.staged.length ≤ Word.size32 := by
  rw [Index.commit_ok_iff, Segment.exists_build_iff _ h.indexable]
  simp

end Index

end GuardedSearch
