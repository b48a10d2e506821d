import GuardedSearch.Proofs.CheckedReads
import GuardedSearch.Proofs.Histories
import GuardedSearch.Proofs.NaiveScan

/-!
# Ordinals in range

What an index answers are ordinals of documents in the segment that is asked, even where a cell
of a shared filter holds what was found in another segment: the filter's set is cut down to the
live documents before anything else sees it (`evaluate_live`). `execute_in_range` says so of
every state of an index, with the reads of the segment's vectors on the way.
-/

namespace GuardedSearch

namespace Segment

variable {s : Segment} {docs : List Document}

-- ---------------------------------------------------------------------------
-- Live documents
-- ---------------------------------------------------------------------------

theorem Represents.live_of_exists (hs : s.Represents docs) {i : Nat} {P : Document → Prop}
    (h : ∃ doc, docs[i]? = some doc ∧ P doc) : i ∈ s.live := by
  obtain ⟨doc, hdoc, -⟩ := h
  exact (hs.live i).mpr (List.getElem?_eq_some_iff.mp hdoc).1

theorem Represents.lt_size (hs : s.Represents docs) {i : Nat} (hi : i ∈ s.live) :
    i < s.docs.size := by
  rw [hs.size_eq]
  exact (hs.live i).mp hi

/-- What is in `must` and `should` is live where their sets are. -/
theorem within_live {must should : List DocSet} (h : must ≠ [] ∨ should ≠ [])
    (hmust : ∀ found ∈ must, ∀ i ∈ found, i ∈ s.live)
    (hshould : ∀ found ∈ should, ∀ i ∈ found, i ∈ s.live) {i : Nat}
    (hi : i ∈ within must should) : i ∈ s.live := by
  obtain ⟨hall, hany⟩ := (mem_within h).mp hi
  by_cases hnone : should = []
  · obtain ⟨first, hfirst⟩ := List.exists_mem_of_ne_nil _ (h.resolve_right (not_not_intro hnone))
    exact hmust first hfirst i (hall first hfirst)
  · obtain ⟨found, hfound, hi⟩ := hany.resolve_left hnone
    exact hshould found hfound i hi

theorem evaluateAll_eq_nil {queries : List NativeQuery} {cache : FilterCache}
    (h : (s.evaluateAll queries cache).1 = []) : queries = [] := by
  cases queries with
  | nil => rfl
  | cons query rest => cases h

mutual

/-- Whatever the cells of shared filters hold, an evaluation finds live documents only. -/
theorem evaluate_live (hs : s.Represents docs) : (query : NativeQuery) → (cache : FilterCache) →
    ∀ i ∈ (s.evaluate query cache).1, i ∈ s.live
  | .all, _, _, hi => hi
  | .none, _, i, hi => absurd hi (DocSet.not_mem_empty i)
  | .term field value, _, i, hi => hs.live_of_exists ((hs.terms field value i).mp hi)
  | .startsWith field stem, _, i, hi => hs.live_of_exists ((hs.mem_termsUnder field stem i).mp hi)
  | .range field lower upper, _, i, hi =>
    hs.live_of_exists ((hs.mem_termsBetween field lower upper i).mp hi)
  | .present field, _, i, hi => hs.live_of_exists ((hs.present field i).mp hi)
  | .wildcard filter, _, _, hi => (DocSet.mem_inter.mp hi).2
  | .bool must should mustNot, cache, i, hi => by
    by_cases h : (must.isEmpty && should.isEmpty) = true
    · rw [evaluate, if_pos h] at hi
      exact absurd hi (DocSet.not_mem_empty i)
    · rw [evaluate_bool s _ _ _ _ h] at hi
      refine within_live ?_ (evaluateAll_live hs must _) (evaluateAll_live hs should _)
        (DocSet.mem_foldl_sdiff.mp hi).1
      simp only [Bool.and_eq_true, List.isEmpty_iff, not_and_or] at h
      exact h.imp (mt evaluateAll_eq_nil) (mt evaluateAll_eq_nil)

theorem evaluateAll_live (hs : s.Represents docs) : (queries : List NativeQuery) →
    (cache : FilterCache) → ∀ found ∈ (s.evaluateAll queries cache).1, ∀ i ∈ found, i ∈ s.live
  | [], _, _, hfound => absurd hfound List.not_mem_nil
  | query :: rest, cache, found, hfound => by
    rcases List.mem_cons.mp hfound with rfl | hfound
    · exact evaluate_live hs query cache
    · exact evaluateAll_live hs rest _ found hfound

end

/-- What is ranked is in range. -/
theorem top_lt_size (hs : s.Represents docs) (query : NativeQuery) (limit : Nat)
    (sorting : Sorting) (cache : FilterCache) :
    ∀ doc ∈ (s.top query limit sorting cache).1.docs, doc.ordinal < s.docs.size := by
  intro doc hdoc
  obtain ⟨i, hi, rfl⟩ := List.mem_map.mp hdoc
  have hfound := (s.ranked_perm ..).mem_iff.mp (List.mem_of_mem_take hi)
  exact hs.lt_size (evaluate_live hs query cache i (DocSet.mem_toList.mp hfound))

theorem fetch_ok {i : Nat} (hi : i < s.docs.size) (selector : FieldSelector) :
    ∃ stored, s.fetch ⟨i⟩ selector = .ok stored := by
  simp only [fetch, Array.getElem?_eq_getElem hi]
  exact ⟨_, rfl⟩

end Segment

namespace Index

variable {index : Index} {snapshot : SnapshotHandle} {s : Segment}

theorem Reachable.represents (h : index.Reachable) (hs : index.segment? snapshot = .ok s) :
    ∃ docs, s.Represents docs := by
  obtain ⟨docs, hdocs, -⟩ := h.built s (.inr ⟨_, Table.mem_of_lookup (segment?_eq_iff.mp hs)⟩)
  exact ⟨docs, hdocs⟩

/-- Every answer of an index is in range. Whatever history the index has, and whatever the cells
of the query's filters hold, a query on an open snapshot answers different documents, as many as
it counts or the limit allows. Each is a document of the snapshot's segment and can be fetched
from it. On the way no read of the postings fails, nor one of the documents where two of those
found are ranked. -/
theorem execute_in_range (h : index.Reachable) (hopen : index.segment? snapshot = .ok s)
    (query : NativeQuery) (limit : Nat) (sorting : Sorting) (cache : FilterCache) :
    ∃ top cache', index.execute snapshot query limit sorting cache = (.ok top, cache') ∧
      top.docs.Nodup ∧ top.docs.length = min limit top.totalHits ∧
      (∀ doc ∈ top.docs, doc.ordinal < s.docs.size ∧
        ∀ selector, ∃ stored, index.fetch snapshot doc selector = .ok stored) ∧
      s.evaluate? query cache = some (s.evaluate query cache) ∧
      ∀ a ∈ (s.evaluate query cache).1, ∀ b ∈ (s.evaluate query cache).1,
        s.ranking? sorting a b = some (s.ranking sorting a b) := by
  obtain ⟨docs, hs⟩ := h.represents hopen
  have hrange : ∀ i ∈ (s.evaluate query cache).1, i < s.docs.size := fun i hi =>
    hs.lt_size (Segment.evaluate_live hs query cache i hi)
  refine ⟨_, _, execute_eq hopen query limit sorting cache, ?_, ?_, fun doc hdoc => ?_,
    congrFun (s.evaluate?_eq query) cache,
    fun a ha b hb => s.ranking?_eq (hrange a ha) (hrange b hb) sorting⟩
  · exact ((List.take_sublist ..).nodup (s.nodup_ranked ..)).map fun _ _ => DocId.mk.inj
  · change (((s.ranked sorting _).take limit).map DocId.mk).length = min limit _
    rw [List.length_map, List.length_take, (s.ranked_perm ..).length_eq]
    rfl
  · have hlt := Segment.top_lt_size hs query limit sorting cache doc hdoc
    refine ⟨hlt, fun selector => ?_⟩
    obtain ⟨stored, hstored⟩ := Segment.fetch_ok hlt selector
    exact ⟨stored, by rw [fetch, hopen]; exact hstored⟩

/-- The second of two documents is deleted between two snapshots. -/
def shortened : Index := ((tagged.commit.2.acquire.2.delete "/b").2.commit.2).acquire.2

theorem shortened_reachable : shortened.Reachable := by
  have hadd : ∃ index, empty.Evolves index ∧
      index.add (.addValue (.addValue .empty Field.uri (.text "/b")) "tag" (.text "x")) =
        .ok tagged :=
    ⟨_, .single (.add (.addValue .empty Field.uri (.text "/a")) rfl), rfl⟩
  obtain ⟨index, hrun, htagged⟩ := hadd
  exact (((((Relation.ReflTransGen.tail hrun (.add _ htagged)).tail (.commit _)).tail
    (.acquire _)).tail (.delete _ "/b")).tail (.commit _)).tail (.acquire _)

/-- Asks for everything without what a filter finds. -/
def withoutTagged (filter : WildcardFilter) : NativeQuery :=
  .bool [.all] [.wildcard filter, .all] [.bool [] [.wildcard filter] [.present "tag"]]

/-- A filter found the second document on the first snapshot. On the second snapshot, which shows
one document only, a query with this filter in its clauses answers this document. -/
theorem execute_in_range_shortened : ∃ (filter : WildcardFilter) (cache : FilterCache)
    (s : Segment) (top : TopDocs),
      (shortened.execute ⟨1⟩ (.wildcard filter) 2 .documentOrder .empty).2 = cache ∧
      cache.get? filter = some (DocSet.empty.insert 1) ∧
      shortened.Reachable ∧ shortened.segment? ⟨2⟩ = .ok s ∧ s.docs.size = 1 ∧
      (shortened.execute ⟨2⟩ (withoutTagged filter) 2 ⟨[⟨"tag", .desc⟩]⟩ cache).1 = .ok top ∧
      top.docs.length = min 2 top.totalHits ∧ top.totalHits = 1 ∧
      ∀ doc ∈ top.docs, doc.ordinal < s.docs.size := by
  obtain ⟨s, hs⟩ : ∃ s, shortened.segment? ⟨2⟩ = .ok s := ⟨_, rfl⟩
  obtain ⟨top, cache', hrun, -, hlength, hrange, -⟩ := execute_in_range shortened_reachable hs
    (withoutTagged ⟨"tag", "*", some 0⟩) 2 ⟨[⟨"tag", .desc⟩]⟩
    (shortened.execute ⟨1⟩ (.wildcard ⟨"tag", "*", some 0⟩) 2 .documentOrder .empty).2
  have hsize : (shortened.segment? ⟨2⟩).toOption.map (·.docs.size) = some 1 := by decide +kernel
  have hhits : (shortened.execute ⟨2⟩ (withoutTagged ⟨"tag", "*", some 0⟩) 2 ⟨[⟨"tag", .desc⟩]⟩
      (shortened.execute ⟨1⟩ (.wildcard ⟨"tag", "*", some 0⟩) 2 .documentOrder .empty).2
      ).1.toOption.map (·.totalHits) = some 1 := by decide +kernel
  rw [hs] at hsize
  rw [hrun] at hhits
  exact ⟨⟨"tag", "*", some 0⟩, _, s, top, rfl, by decide +kernel, shortened_reachable, hs,
    Option.some.inj hsize, congrArg Prod.fst hrun, hlength, Option.some.inj hhits,
    fun doc hdoc => (hrange doc hdoc).1⟩

end Index

end GuardedSearch
