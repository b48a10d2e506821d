import GuardedSearch.Proofs.UnsharedFilters
import GuardedSearch.Proofs.Widening

/-!
# The page of a search

A search that succeeds shows a page of what the oracle grants of the ranking, cut at the
ceiling. `search_page` says so for every index with a history, whatever the size of the rounds.
-/

namespace GuardedSearch

namespace Step

theorem withSnapshot_ok {σ : Type} {engine : Engine σ} {body : SnapshotHandle → Step σ α} {b : α}
    {state state' : σ} (h : withSnapshot engine body state = (.ok b, state')) :
    ∃ snapshot acquired after, call engine.acquire state = (.ok snapshot, acquired) ∧
      body snapshot acquired = (.ok b, after) := by
  rw [withSnapshot, bind_ok] at h
  obtain ⟨snapshot, acquired, hacquire, h⟩ := h
  have hbody : (body snapshot acquired).1 = .ok b := congrArg Prod.fst h
  exact ⟨snapshot, acquired, (body snapshot acquired).2, hacquire, Prod.ext hbody rfl⟩

end Step

namespace SearchRequest

/-- The page in terms of the granted documents: what the need counts beyond them is cut off,
so it does no harm that the count saturates. -/
theorem page_eq (request : SearchRequest) (largest : Nat) {granted : List DocId}
    (hfew : granted.length ≤ Word.maxCount) :
    (granted.take (request.need largest)).drop request.cursor =
      (granted.drop request.cursor).take (min request.limit largest) := by
  rw [List.drop_take, List.take_eq_take_iff, List.length_drop, need]
  omega

end SearchRequest

namespace Index

/-- The documents of a query on a snapshot, all of them and in ranking order. -/
def Ranks (index : Index) (snapshot : SnapshotHandle) (query : NativeQuery) (sorting : Sorting)
    (ranked : List DocId) : Prop :=
  ∀ cache limit, (index.execute snapshot query limit sorting cache).1 =
    .ok ⟨ranked.take limit, ranked.length⟩

/-- The documents that a page shows: of the front of the ranking up to the ceiling those that
are granted, from the cursor on and at most `size`. -/
def pageOf (index : Index) (snapshot : SnapshotHandle) (allows : SecurityDescriptor → Bool)
    (ranked : List DocId) (ceiling cursor size : Nat) : List DocId :=
  (((ranked.take ceiling).filter (index.grants snapshot allows)).drop cursor).take size

theorem Ranks.unique {index : Index} {snapshot : SnapshotHandle} {query : NativeQuery}
    {sorting : Sorting} {ranked ranked' : List DocId}
    (h : index.Ranks snapshot query sorting ranked)
    (h' : index.Ranks snapshot query sorting ranked') : ranked = ranked' := by
  have htop := (h .empty ranked.length).symm.trans (h' .empty ranked.length)
  simp only [Except.ok.injEq, TopDocs.mk.injEq, List.take_length] at htop
  rw [htop.1, htop.2, List.take_length]

theorem records_docIds {index : Index} {snapshot : SnapshotHandle} {schema : Schema}
    {select : PropertySelect} {docs : List DocId} {records : List ResultRecord}
    (h : records.map some = docs.map (index.record? snapshot schema select)) :
    records.map (·.docId) = docs ∧
      ∀ record ∈ records, index.record? snapshot schema select record.docId = some record := by
  induction docs generalizing records with
  | nil =>
    rw [List.map_nil, List.map_eq_nil_iff] at h
    simp [h]
  | cons doc docs ih =>
    cases records with
    | nil => cases h
    | cons record records =>
      obtain ⟨hrecord, hrest⟩ := List.cons.inj h
      obtain ⟨hdocs, hrecords⟩ := ih hrest
      have hdoc := record?_docId hrecord.symm
      rw [List.map_cons, hdocs, hdoc]
      refine ⟨rfl, List.forall_mem_cons.mpr ⟨?_, hrecords⟩⟩
      rw [hdoc, hrecord]

/-- On a snapshot that has just been acquired every query without shared filters has a ranking,
of no more documents than a machine word counts. -/
theorem Reachable.exists_ranks {index : Index} (h : index.Reachable) {query : NativeQuery}
    (hquery : query.Unshared) (sorting : Sorting) :
    ∃ ranked, index.acquire.2.Ranks index.acquire.1 query sorting ranked ∧
      ranked.length ≤ Word.maxCount := by
  obtain ⟨docs, hs, hfew⟩ := h.built index.current (.inl rfl)
  have hsnapshot : index.acquire.2.segment? index.acquire.1 = .ok index.current := by
    rw [segment?_eq_iff]
    exact List.lookup_cons_self
  have hperm := index.current.inOrder_perm sorting (Segment.scan docs query.accepts)
  refine ⟨(index.current.inOrder sorting (Segment.scan docs query.accepts)).map DocId.mk, ?_, ?_⟩
  · intro cache limit
    obtain ⟨htop, -⟩ := Segment.top_settled hs hquery.ownCells (hquery.fresh cache).settled
      (fun _ hf => hf) limit sorting
    rw [execute_eq hsnapshot, htop, List.map_take, List.length_map, hperm.length_eq]
  · rw [List.length_map, hperm.length_eq]
    have := Segment.length_scan_le docs query.accepts
    simp only [Word.size32, Word.maxCount] at *
    omega

end Index

namespace Searcher

section Found

variable {s : Searcher (FilterCache × Index)} {allows : Token → SecurityDescriptor → Bool}
  {index : Index} {token : Token} {request : SearchRequest} {cells : FilterCache}
  (hreachable : index.Reachable) (hengine : s.engine = Index.engine)
  (hdecides : s.oracle.Decides allows) (hacts : s.oracle.ActsOnIndex)

include hreachable hengine hdecides hacts

theorem search_ok {result : ResultSet} {state' : FilterCache × Index}
    (hneed : 0 < request.need s.config.maxLimit)
    (h : s.search token request (cells, index) = (.ok result, state')) :
    ∃ native ranked,
      request.query.translate s.schema Index.engine index.acquire.1 (cells, index.acquire.2) =
        (.ok native, cells, index.acquire.2) ∧
      index.acquire.2.Ranks index.acquire.1 native request.sorting ranked ∧
      result.records.map some =
        (index.acquire.2.pageOf index.acquire.1 (allows token) ranked s.config.ceiling
          request.cursor (min request.limit s.config.maxLimit)).map
            (index.acquire.2.record? index.acquire.1 s.schema request.select) ∧
      result.totalHits = ranked.length := by
  rw [search, dif_neg (Nat.ne_of_gt hneed)] at h
  obtain ⟨snapshot, acquired, after, hacquire, h⟩ := Step.withSnapshot_ok h
  rw [Step.call_ok, hengine] at hacquire
  obtain ⟨hsnapshot, rfl⟩ := Prod.mk.inj hacquire
  obtain rfl := Except.ok.inj hsnapshot
  simp only [Step.bind_ok, hengine, Step.pure_ok] at h
  obtain ⟨native, mid, htranslate, findings, found, hwiden, records, done, hrecords, rfl, rfl⟩ := h
  obtain ⟨hmid, hunshared⟩ := Query.translate_unshared _ htranslate
  subst hmid
  obtain ⟨ranked, hranks, hfew⟩ := hreachable.exists_ranks hunshared request.sorting
  have hid : index.acquire.1.id ≤ index.acquire.2.acquired := Nat.le_refl _
  have hstart : index.acquire.2.Evolves (cells, index.acquire.2).2 := .refl
  obtain ⟨hrun, hhits, hauthorized⟩ := widen_ok hengine hdecides hacts hid hranks
    (Nat.min_le_left ..) (Nat.zero_le _) hstart hwiden
  obtain ⟨-, hmaterialized⟩ := materializeAll_ok hengine hrun hid hrecords
  refine ⟨native, ranked, htranslate, hranks, ?_, hhits⟩
  have hgranted : ((ranked.take s.config.ceiling).filter
      (index.acquire.2.grants index.acquire.1 (allows token))).length ≤ Word.maxCount :=
    (List.length_filter_le ..).trans ((List.length_take_le' ..).trans hfew)
  rw [← hmaterialized, page, hauthorized, request.page_eq s.config.maxLimit hgranted, Index.pageOf]

/-- A search that succeeds shows the page of the granted documents, in the order of the ranking,
and counts the ranking. Neither depends on the windows of the rounds. -/
theorem search_page (token : Token) (request : SearchRequest) (cells : FilterCache) :
    (request.need s.config.maxLimit = 0 →
      s.search token request (cells, index) = (.ok .empty, cells, index)) ∧
    ∀ result state', 0 < request.need s.config.maxLimit →
      s.search token request (cells, index) = (.ok result, state') →
        (∃ native ranked,
          request.query.translate s.schema Index.engine index.acquire.1 (cells, index.acquire.2) =
            (.ok native, cells, index.acquire.2) ∧
          index.acquire.2.Ranks index.acquire.1 native request.sorting ranked ∧
          result.records.map (·.docId) =
            index.acquire.2.pageOf index.acquire.1 (allows token) ranked s.config.ceiling
              request.cursor (min request.limit s.config.maxLimit) ∧
          (∀ record ∈ result.records, index.acquire.2.record? index.acquire.1 s.schema
            request.select record.docId = some record) ∧
          result.totalHits = ranked.length) ∧
        ∀ (other : SearchConfig) (hother : other.IsValid), other.ceiling = s.config.ceiling →
          other.maxLimit = s.config.maxLimit → ∀ result' state'',
            ({ s with config := other, config_isValid := hother } : Searcher _).search token request
              (cells, index) = (.ok result', state'') →
            result'.records = result.records ∧ result'.totalHits = result.totalHits := by
  refine ⟨fun hneed => search_of_need_eq_zero s token hneed _, fun result state' hneed h => ?_⟩
  obtain ⟨native, ranked, htranslate, hranks, hrecords, hhits⟩ :=
    search_ok hreachable hengine hdecides hacts hneed h
  refine ⟨⟨native, ranked, htranslate, hranks, ?_, ?_, hhits⟩, ?_⟩
  · exact (Index.records_docIds hrecords).1
  · exact (Index.records_docIds hrecords).2
  · intro other hother hceiling hlargest result' state'' h'
    have hneed' : 0 < request.need other.maxLimit := by rwa [hlargest]
    obtain ⟨native', ranked', htranslate', hranks', hrecords', hhits'⟩ :=
      search_ok (s := { s with config := other, config_isValid := hother }) hreachable hengine
        hdecides hacts hneed' h'
    obtain rfl := Except.ok.inj (Prod.mk.inj (htranslate.symm.trans htranslate')).1
    obtain rfl := hranks.unique hranks'
    refine ⟨?_, hhits'.trans hhits.symm⟩
    simp only [hceiling, hlargest] at hrecords'
    exact (List.map_inj_right fun _ _ => Option.some.inj).mp (hrecords'.trans hrecords.symm)

end Found

/-- A searcher whose windows hold two documents, for callers who may see one uri. -/
def seesOnly (uri : String) : Searcher (FilterCache × Index) :=
  ⟨Schema.initial, Index.engine, .ofPredicate fun _ d => d.uri == uri, ⟨2, 1, 60000, 4⟩, by decide⟩

/-- The first of all resources. -/
def firstResource : SearchRequest := ⟨.present Field.uri, 1, 0, .documentOrder, .none⟩

theorem tagged_reachable : Index.tagged.commit.2.Reachable := by
  have hadd : ∃ index, Index.empty.Evolves index ∧
      index.add (.addValue (.addValue .empty Field.uri (.text "/b")) "tag" (.text "x")) =
        .ok Index.tagged :=
    ⟨_, .single (.add (.addValue .empty Field.uri (.text "/a")) rfl), rfl⟩
  obtain ⟨index, hrun, htagged⟩ := hadd
  exact (Relation.ReflTransGen.tail hrun (.add _ htagged)).tail (.commit _)

/-- The first round finds what is denied, the second what is granted. -/
theorem search_page_second_round : ∃ result native ranked,
    ((seesOnly "/b").search ⟨"caller"⟩ firstResource (.empty, Index.tagged.commit.2)).1 =
        .ok result ∧ result.rounds = 2 ∧
      Index.tagged.commit.2.acquire.2.Ranks ⟨1⟩ native .documentOrder ranked ∧
      result.records.map (·.docId) = Index.tagged.commit.2.acquire.2.pageOf ⟨1⟩
        (fun d => d.uri == "/b") ranked 2 0 1 ∧
      result.totalHits = ranked.length := by
  have hrounds : ((seesOnly "/b").search ⟨"caller"⟩ firstResource
      (.empty, Index.tagged.commit.2)).1.toOption.map (·.rounds) = some 2 := by
    decide +kernel
  obtain ⟨result, hresult, htwo⟩ := Option.map_eq_some_iff.mp hrounds
  have hok := Outcome.toOption_eq_some.mp hresult
  obtain ⟨⟨native, ranked, -, hranks, hpage, -, hhits⟩, -⟩ :=
    (search_page tagged_reachable rfl (Oracle.ofPredicate_decides _)
      (Oracle.ofPredicate_actsOnIndex _) ⟨"caller"⟩ firstResource .empty).2 result _ (by decide)
        (Prod.ext hok rfl)
  exact ⟨result, native, ranked, hok, htwo, hranks, hpage, hhits⟩

end Searcher

end GuardedSearch
