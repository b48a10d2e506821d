import GuardedSearch.Index
import GuardedSearch.Proofs.FilterCells
import GuardedSearch.Proofs.Postings
import Mathlib.Data.List.Sort

/-!
# Evaluation and the naive scan

`accepts` tests a query on one document, on the index terms of its values. A segment answers a
query with the documents that it accepts: `evaluate_settled` follows the evaluation with what
it leaves in the cells of shared filters.
-/

namespace GuardedSearch

-- ---------------------------------------------------------------------------
-- One document
-- ---------------------------------------------------------------------------

namespace Bound

/-- Whether the bytes of a term are within this lower bound. -/
def isBelow : Bound → String → Bool
  | inclusive bound, term => decide (¬ Text.bytes term < Text.bytes bound)
  | exclusive bound, term => decide (Text.bytes bound < Text.bytes term)
  | unbounded, _ => true

/-- Whether the bytes of a term are within this upper bound. -/
def isAbove : Bound → String → Bool
  | inclusive bound, term => decide (¬ Text.bytes bound < Text.bytes term)
  | exclusive bound, term => decide (Text.bytes term < Text.bytes bound)
  | unbounded, _ => true

theorem admitsFromBelow_eq (bound : Bound) (term : String) :
    bound.admitsFromBelow term = bound.isBelow term := by
  cases bound <;> simp only [admitsFromBelow, isBelow, Text.bytes_lt_iff]

theorem admitsFromAbove_eq (bound : Bound) (term : String) :
    bound.admitsFromAbove term = bound.isAbove term := by
  cases bound <;> simp only [admitsFromAbove, isAbove, Text.bytes_lt_iff]

end Bound

namespace NativeQuery

mutual

/-- Whether a document satisfies a query. -/
def accepts (doc : Document) : NativeQuery → Bool
  | .all => true
  | .none => false
  | .term field value => (doc.termsIn field).any fun term => term == value
  | .startsWith field stem =>
    (doc.termsIn field).any fun term => (Text.bytes stem).isPrefixOf (Text.bytes term)
  | .range field lower upper =>
    (doc.termsIn field).any fun term => lower.isBelow term && upper.isAbove term
  | .present field => !(doc.valuesOf field).isEmpty
  | .wildcard filter =>
    (doc.termsIn filter.field).any fun term =>
      decide (Glob.Matches filter.pattern.toList term.toList)
  | .bool must should mustNot =>
    (!must.isEmpty || !should.isEmpty) && acceptsAll doc must &&
      (should.isEmpty || acceptsAny doc should) && !acceptsAny doc mustNot

def acceptsAll (doc : Document) : List NativeQuery → Bool
  | [] => true
  | query :: rest => accepts doc query && acceptsAll doc rest

def acceptsAny (doc : Document) : List NativeQuery → Bool
  | [] => false
  | query :: rest => accepts doc query || acceptsAny doc rest

end

theorem acceptsAll_eq (doc : Document) (queries : List NativeQuery) :
    acceptsAll doc queries = queries.all (accepts doc) := by
  induction queries with
  | nil => rfl
  | cons query rest ih => rw [acceptsAll, ih, List.all_cons]

theorem acceptsAny_eq (doc : Document) (queries : List NativeQuery) :
    acceptsAny doc queries = queries.any (accepts doc) := by
  induction queries with
  | nil => rfl
  | cons query rest ih => rw [acceptsAny, ih, List.any_cons]

mutual

/-- The wildcard filters of a query. -/
def filters : NativeQuery → List WildcardFilter
  | .wildcard filter => [filter]
  | .bool must should mustNot => filtersOf must ++ filtersOf should ++ filtersOf mustNot
  | .all | .none | .term .. | .startsWith .. | .range .. | .present _ => []

def filtersOf : List NativeQuery → List WildcardFilter
  | [] => []
  | query :: rest => filters query ++ filtersOf rest

end

end NativeQuery

-- ---------------------------------------------------------------------------
-- Shared filters
-- ---------------------------------------------------------------------------

/-- A cell belongs to one filter. -/
def WildcardFilter.OwnCells (filters : List WildcardFilter) : Prop :=
  ∀ f ∈ filters, ∀ g ∈ filters, f.cell = g.cell → f.cell ≠ none → f = g

instance (filters : List WildcardFilter) : Decidable (WildcardFilter.OwnCells filters) := by
  unfold WildcardFilter.OwnCells
  infer_instance

namespace FilterCache

/-- None of the filters has been evaluated. -/
def Fresh (cache : FilterCache) (filters : List WildcardFilter) : Prop :=
  ∀ f ∈ filters, cache.get? f = none

instance (cache : FilterCache) (filters : List WildcardFilter) :
    Decidable (cache.Fresh filters) := by
  unfold Fresh
  infer_instance

/-- What the cells of the filters hold is what the filters find in the segment. -/
def Settled (cache : FilterCache) (s : Segment) (filters : List WildcardFilter) : Prop :=
  ∀ f ∈ filters, ∀ found, cache.get? f = some found →
    found = Segment.postingsOf (s.termsMatching f.field f.pattern)

variable {cache : FilterCache} {s : Segment} {filters : List WildcardFilter}

theorem Fresh.settled (h : cache.Fresh filters) : cache.Settled s filters := by
  intro f hf found hget
  rw [h f hf] at hget
  cases hget

theorem keepFirst_settled (hown : WildcardFilter.OwnCells filters) (h : cache.Settled s filters)
    {f : WildcardFilter} (hf : f ∈ filters) {found : DocSet}
    (hfound : found = Segment.postingsOf (s.termsMatching f.field f.pattern)) :
    (cache.keepFirst f found).1 = found ∧ (cache.keepFirst f found).2.Settled s filters := by
  have hfirst : (cache.keepFirst f found).1 = found := by
    rw [keepFirst_fst]
    cases hget : cache.get? f with
    | some first => exact (h f hf first hget).trans hfound.symm
    | none => rfl
  refine ⟨hfirst, fun g hg found' hget => ?_⟩
  by_cases hcell : f.cell = g.cell
  · have hshared : f.cell ≠ none := by
      intro hnone
      simp [get?, ← hcell, hnone] at hget
    obtain rfl := hown f hf g hg hcell hshared
    rw [get?_keepFirst_eq_some hget, hfirst, hfound]
  · rw [get?_keepFirst_of_ne hcell] at hget
    exact h g hg found' hget

end FilterCache

-- ---------------------------------------------------------------------------
-- Evaluation
-- ---------------------------------------------------------------------------

/-- The set holds the places of the documents that satisfy `p`. -/
def DocSet.Selects (found : DocSet) (docs : List Document) (p : Document → Bool) : Prop :=
  ∀ i, i ∈ found ↔ ∃ doc, docs[i]? = some doc ∧ p doc = true

namespace Segment

open NativeQuery (accepts acceptsAll acceptsAny)

variable {s : Segment} {docs : List Document} {filters : List WildcardFilter}

/-- Each set holds the places of the documents that satisfy the query beside it. -/
abbrev SelectEach (docs : List Document) (queries : List NativeQuery) (founds : List DocSet) :
    Prop :=
  List.Forall₂ (fun query found => found.Selects docs fun doc => accepts doc query) queries founds

theorem SelectEach.exists_iff {queries : List NativeQuery} {founds : List DocSet}
    (h : SelectEach docs queries founds) {i : Nat} {doc : Document} (hdoc : docs[i]? = some doc) :
    (∃ t ∈ founds, i ∈ t) ↔ acceptsAny doc queries = true := by
  induction h with
  | nil => simp [acceptsAny]
  | cons hfound _ ih =>
    simp only [List.mem_cons, exists_eq_or_imp, ih, acceptsAny, Bool.or_eq_true, hfound i, hdoc,
      Option.some.injEq, exists_eq_left']

theorem SelectEach.forall_iff {queries : List NativeQuery} {founds : List DocSet}
    (h : SelectEach docs queries founds) {i : Nat} {doc : Document} (hdoc : docs[i]? = some doc) :
    (∀ t ∈ founds, i ∈ t) ↔ acceptsAll doc queries = true := by
  induction h with
  | nil => simp [acceptsAll]
  | cons hfound _ ih =>
    simp only [List.mem_cons, forall_eq_or_imp, ih, acceptsAll, Bool.and_eq_true, hfound i, hdoc,
      Option.some.injEq, exists_eq_left']

theorem SelectEach.not_mem {queries : List NativeQuery} {founds : List DocSet}
    (h : SelectEach docs queries founds) {i : Nat} (hi : docs[i]? = none) :
    ∀ t ∈ founds, i ∉ t := by
  induction h with
  | nil => simp
  | cons hfound _ ih =>
    refine List.forall_mem_cons.mpr ⟨fun hmem => ?_, ih⟩
    obtain ⟨doc, hdoc, -⟩ := (hfound i).mp hmem
    cases hi.symm.trans hdoc

/-- What is in all of `must`, and in one of `should` if there are any. -/
def within (must should : List DocSet) : DocSet :=
  match must, should with
  | [], should => DocSet.unionAll should
  | first :: rest, [] => rest.foldl (· ∩ ·) first
  | first :: rest, should => rest.foldl (· ∩ ·) first ∩ DocSet.unionAll should

theorem mem_within {must should : List DocSet} (h : must ≠ [] ∨ should ≠ []) {i : Nat} :
    i ∈ within must should ↔ (∀ t ∈ must, i ∈ t) ∧ (should = [] ∨ ∃ t ∈ should, i ∈ t) := by
  cases must with
  | nil =>
    have hshould : should ≠ [] := by simpa using h
    simp [within, DocSet.mem_unionAll, hshould]
  | cons first rest =>
    cases should with
    | nil => simp [within, DocSet.mem_foldl_inter]
    | cons _ _ => simp [within, DocSet.mem_foldl_inter, DocSet.mem_unionAll]

theorem evaluate_bool (s : Segment) (must should mustNot : List NativeQuery) (cache : FilterCache)
    (h : ¬ (must.isEmpty && should.isEmpty) = true) :
    s.evaluate (.bool must should mustNot) cache =
      let musts := s.evaluateAll must cache
      let shoulds := s.evaluateAll should musts.2
      let mustNots := s.evaluateAll mustNot shoulds.2
      (mustNots.1.foldl (· \ ·) (within musts.1 shoulds.1), mustNots.2) := by
  rw [evaluate, if_neg h]
  rfl

theorem selects_bool {must should mustNot : List NativeQuery} {musts shoulds mustNots : List DocSet}
    (h : ¬ (must.isEmpty && should.isEmpty) = true) (hmust : SelectEach docs must musts)
    (hshould : SelectEach docs should shoulds) (hmustNot : SelectEach docs mustNot mustNots) :
    (mustNots.foldl (· \ ·) (within musts shoulds)).Selects docs fun doc =>
      accepts doc (.bool must should mustNot) := by
  have hmusts : musts = [] ↔ must = [] := by cases hmust <;> simp
  have hshoulds : shoulds = [] ↔ should = [] := by cases hshould <;> simp
  have hsome : must ≠ [] ∨ should ≠ [] := by
    simpa [List.isEmpty_iff, Classical.or_iff_not_imp_left] using h
  have hfound : musts ≠ [] ∨ shoulds ≠ [] := by
    rw [ne_eq, ne_eq, hmusts, hshoulds]
    exact hsome
  intro i
  rw [DocSet.mem_foldl_sdiff, mem_within hfound]
  cases hdoc : docs[i]? with
  | none =>
    -- a place without a document is in none of the sets, and one of the two lists has a set
    refine iff_of_false ?_ (by simp)
    rintro ⟨⟨hall, hany⟩, -⟩
    rcases hfound with hfound | hfound
    · obtain ⟨t, ht⟩ := List.exists_mem_of_ne_nil _ hfound
      exact hmust.not_mem hdoc t ht (hall t ht)
    · obtain ⟨t, ht, hi⟩ := hany.resolve_left hfound
      exact hshould.not_mem hdoc t ht hi
  | some doc =>
    have hnone : (∀ t ∈ mustNots, i ∉ t) ↔ ¬ acceptsAny doc mustNot = true := by
      rw [← hmustNot.exists_iff hdoc]
      simp
    rw [hmust.forall_iff hdoc, hshould.exists_iff hdoc, hshoulds, hnone]
    simp [accepts, hsome, and_assoc]

mutual

/-- An evaluation finds the places of the documents that satisfy the query, and leaves in the
cells what their filters find. -/
theorem evaluate_settled (hs : s.Represents docs) (hown : WildcardFilter.OwnCells filters) :
    (query : NativeQuery) → {cache : FilterCache} → cache.Settled s filters →
      (∀ f ∈ query.filters, f ∈ filters) →
        (s.evaluate query cache).1.Selects docs (fun doc => accepts doc query) ∧
          (s.evaluate query cache).2.Settled s filters
  | .all, cache, hcache, _ => by
    refine ⟨fun i => ?_, hcache⟩
    change i ∈ s.live ↔ _
    rw [hs.live]
    simp [accepts, List.getElem?_eq_some_iff]
  | .none, cache, hcache, _ => by
    refine ⟨fun i => ?_, hcache⟩
    change i ∈ (∅ : DocSet) ↔ _
    simp [accepts]
  | .term field value, cache, hcache, _ => by
    refine ⟨fun i => ?_, hcache⟩
    change i ∈ s.withTerm field value ↔ _
    rw [hs.terms]
    simp [accepts]
  | .startsWith field stem, cache, hcache, _ => by
    refine ⟨fun i => ?_, hcache⟩
    change i ∈ postingsOf (s.termsUnder field stem) ↔ _
    rw [hs.mem_termsUnder]
    simp only [accepts, List.any_eq_true, List.isPrefixOf_iff_prefix, Text.bytes_prefix_iff]
  | .range field lower upper, cache, hcache, _ => by
    refine ⟨fun i => ?_, hcache⟩
    change i ∈ postingsOf (s.termsBetween field lower upper) ↔ _
    rw [hs.mem_termsBetween]
    simp only [accepts, Bound.admitsFromBelow_eq, Bound.admitsFromAbove_eq]
  | .present field, cache, hcache, _ => by
    refine ⟨fun i => ?_, hcache⟩
    change i ∈ s.withField field ↔ _
    rw [hs.present]
    simp [accepts]
  | .wildcard filter, cache, hcache, hmem => by
    have hfilter := hmem filter (by simp [NativeQuery.filters])
    obtain ⟨hfound, hcache'⟩ := FilterCache.keepFirst_settled hown hcache hfilter rfl
    refine ⟨fun i => ?_, hcache'⟩
    change i ∈ (cache.keepFirst filter _).1 ∩ s.live ↔ _
    rw [DocSet.mem_inter, hfound, hs.mem_termsMatching, hs.live]
    simp only [accepts, and_iff_left_iff_imp]
    rintro ⟨doc, hdoc, -⟩
    exact (List.getElem?_eq_some_iff.mp hdoc).1
  | .bool must should mustNot, cache, hcache, hmem => by
    by_cases h : (must.isEmpty && should.isEmpty) = true
    · rw [evaluate, if_pos h]
      refine ⟨fun i => ?_, hcache⟩
      change i ∈ (∅ : DocSet) ↔ _
      rw [Bool.and_eq_true, List.isEmpty_iff, List.isEmpty_iff] at h
      simp [accepts, h]
    · simp only [NativeQuery.filters, List.mem_append] at hmem
      rw [evaluate_bool s _ _ _ _ h]
      obtain ⟨hmust, hcache⟩ :=
        evaluateAll_settled hs hown must hcache fun f hf => hmem f (.inl (.inl hf))
      obtain ⟨hshould, hcache⟩ :=
        evaluateAll_settled hs hown should hcache fun f hf => hmem f (.inl (.inr hf))
      obtain ⟨hmustNot, hcache⟩ :=
        evaluateAll_settled hs hown mustNot hcache fun f hf => hmem f (.inr hf)
      exact ⟨selects_bool h hmust hshould hmustNot, hcache⟩

theorem evaluateAll_settled (hs : s.Represents docs) (hown : WildcardFilter.OwnCells filters) :
    (queries : List NativeQuery) → {cache : FilterCache} → cache.Settled s filters →
      (∀ f ∈ NativeQuery.filtersOf queries, f ∈ filters) →
        SelectEach docs queries (s.evaluateAll queries cache).1 ∧
          (s.evaluateAll queries cache).2.Settled s filters
  | [], cache, hcache, _ => ⟨.nil, hcache⟩
  | query :: rest, cache, hcache, hmem => by
    simp only [NativeQuery.filtersOf, List.mem_append] at hmem
    obtain ⟨hfound, hcache⟩ := evaluate_settled hs hown query hcache fun f hf => hmem f (.inl hf)
    obtain ⟨hothers, hcache⟩ :=
      evaluateAll_settled hs hown rest hcache fun f hf => hmem f (.inr hf)
    exact ⟨.cons hfound hothers, hcache⟩

end

-- ---------------------------------------------------------------------------
-- Ranked answers
-- ---------------------------------------------------------------------------

/-- The places of the documents that satisfy `p`, in ascending order. -/
def scan (docs : List Document) (p : Document → Bool) : List Nat :=
  (List.range docs.length).filter fun i => (docs[i]?).any p

theorem mem_scan {p : Document → Bool} {i : Nat} :
    i ∈ scan docs p ↔ ∃ doc, docs[i]? = some doc ∧ p doc = true := by
  rw [scan, List.mem_filter, List.mem_range, Option.any_eq_true, and_iff_right_iff_imp]
  rintro ⟨doc, hdoc, -⟩
  exact (List.getElem?_eq_some_iff.mp hdoc).1

theorem length_scan_le (docs : List Document) (p : Document → Bool) :
    (scan docs p).length ≤ docs.length :=
  (List.length_filter_le ..).trans_eq List.length_range

/-- Two ascending lists with the same members are the same list. -/
theorem toList_eq_scan {found : DocSet} {p : Document → Bool} (h : found.Selects docs p) :
    found.toList = scan docs p := by
  have hascending (n : Nat) (q : Nat → Bool) :
      ((List.range n).filter q).Pairwise (· < ·) :=
    List.Pairwise.filter _ List.pairwise_lt_range
  refine List.Pairwise.eq_of_mem_iff (hascending _ _) (hascending _ _) fun i => ?_
  exact DocSet.mem_toList.trans ((h i).trans mem_scan.symm)

/-- Places of documents in ranking order. -/
def inOrder (s : Segment) (sorting : Sorting) (places : List Nat) : List Nat :=
  if sorting.isDocumentOrder then places
  else places.mergeSort fun a b => (s.ranking sorting a b).isLE

theorem inOrder_perm (s : Segment) (sorting : Sorting) (places : List Nat) :
    (s.inOrder sorting places).Perm places := by
  rw [inOrder]
  split
  · exact .refl _
  · exact List.mergeSort_perm ..

theorem ranked_perm (s : Segment) (sorting : Sorting) (found : DocSet) :
    (s.ranked sorting found).Perm found.toList := s.inOrder_perm sorting found.toList

theorem nodup_ranked (s : Segment) (sorting : Sorting) (found : DocSet) :
    (s.ranked sorting found).Nodup :=
  (s.ranked_perm sorting found).nodup_iff.mpr found.nodup_toList

/-- The answer to a query lists the documents that satisfy it in ranking order. -/
theorem top_settled (hs : s.Represents docs) (hown : WildcardFilter.OwnCells filters)
    {query : NativeQuery} {cache : FilterCache} (hcache : cache.Settled s filters)
    (hmem : ∀ f ∈ query.filters, f ∈ filters) (limit : Nat) (sorting : Sorting) :
    (s.top query limit sorting cache).1 =
        ⟨((s.inOrder sorting (scan docs query.accepts)).take limit).map DocId.mk,
          (scan docs query.accepts).length⟩ ∧
      (s.top query limit sorting cache).2.Settled s filters := by
  obtain ⟨hfound, hcache'⟩ := evaluate_settled hs hown query hcache hmem
  refine ⟨?_, hcache'⟩
  change TopDocs.mk (((s.ranked sorting (s.evaluate query cache).1).take limit).map DocId.mk)
    (s.evaluate query cache).1.size = _
  rw [ranked, DocSet.size, toList_eq_scan hfound, inOrder]

end Segment

namespace Index

theorem commit_build {index committed : Index} {version : Nat}
    (h : index.commit = (.ok version, committed)) :
    Segment.build version index.staged = .ok committed.current := by
  simp only [commit] at h
  split at h
  · next segment hbuild =>
    obtain ⟨hversion, rfl⟩ := Prod.mk.inj h
    obtain rfl := Except.ok.inj hversion
    exact hbuild
  · cases (Prod.mk.inj h).1

theorem commit_represents {index committed : Index} {version : Nat}
    (h : index.commit = (.ok version, committed)) :
    committed.current.Represents index.staged :=
  Segment.build_represents (commit_build h)

theorem execute_eq {index : Index} {snapshot : SnapshotHandle} {s : Segment}
    (h : index.segment? snapshot = .ok s) (query : NativeQuery) (limit : Nat) (sorting : Sorting)
    (cache : FilterCache) :
    index.execute snapshot query limit sorting cache =
      (.ok (s.top query limit sorting cache).1, (s.top query limit sorting cache).2) := by
  rw [execute, h]
  rfl

/-- A snapshot of the committed documents answers a query with the documents that satisfy it:
it counts them under any limit, and lists them all under a limit of at least the count of
documents. -/
theorem execute_finds_scan {index committed later : Index} {version : Nat}
    {snapshot : SnapshotHandle} {query : NativeQuery} {cache : FilterCache}
    (hcommit : index.commit = (.ok version, committed))
    (hsnapshot : later.segment? snapshot = .ok committed.current)
    (hown : WildcardFilter.OwnCells query.filters) (hfresh : cache.Fresh query.filters)
    (limit : Nat) (sorting : Sorting) :
    ∃ top cache', later.execute snapshot query limit sorting cache = (.ok top, cache') ∧
      top.totalHits = (Segment.scan index.staged query.accepts).length ∧
      (index.staged.length ≤ limit →
        (top.docs.map (·.ordinal)).Perm (Segment.scan index.staged query.accepts)) := by
  have hs := commit_represents hcommit
  obtain ⟨htop, -⟩ := Segment.top_settled hs hown hfresh.settled (fun _ hf => hf) limit sorting
  refine ⟨_, _, execute_eq hsnapshot query limit sorting cache, ?_, fun hlimit => ?_⟩
  · rw [htop]
  · have hperm := committed.current.inOrder_perm sorting (Segment.scan index.staged query.accepts)
    rw [htop, List.map_map, List.take_of_length_le]
    · simpa [Function.comp_def] using hperm
    · rw [hperm.length_eq]
      exact (Segment.length_scan_le ..).trans hlimit

/-- Two staged documents, of which one has a tag. -/
def tagged : Index :=
  { empty with
    staged :=
      [Document.empty.addValue Field.uri (.text "/a"),
       (Document.empty.addValue Field.uri (.text "/b")).addValue "tag" (.text "x")] }

/-- A filter that stands at two places of a query has one cell. -/
def taggedOnce : NativeQuery :=
  .bool [.present "tag", .wildcard ⟨"tag", "*", some 0⟩] [.wildcard ⟨"tag", "*", some 0⟩] []

theorem execute_finds_scan_tagged :
    ∃ top cache', tagged.commit.2.acquire.2.execute ⟨1⟩ taggedOnce 2 .documentOrder .empty =
        (.ok top, cache') ∧
      top.totalHits = (Segment.scan tagged.staged taggedOnce.accepts).length ∧
      (tagged.staged.length ≤ 2 →
        (top.docs.map (·.ordinal)).Perm (Segment.scan tagged.staged taggedOnce.accepts)) := by
  have hcommit : tagged.commit = (.ok 1, tagged.commit.2) := rfl
  have hsnapshot : tagged.commit.2.acquire.2.segment? ⟨1⟩ = .ok tagged.commit.2.current := rfl
  exact execute_finds_scan hcommit hsnapshot (by decide) (by decide) 2 .documentOrder

end Index

end GuardedSearch
