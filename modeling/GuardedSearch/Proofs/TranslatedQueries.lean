import GuardedSearch.Index
import GuardedSearch.Proofs.Meaning
import GuardedSearch.Proofs.UnsharedFilters

/-!
# Translated queries on a snapshot

A query that is translated on a snapshot finds there the documents that satisfy it, read on
their values, however often it has been executed before. The uri of a subtree is resolved by
reads through the snapshot.
-/

namespace GuardedSearch

-- ---------------------------------------------------------------------------
-- Reads through a snapshot
-- ---------------------------------------------------------------------------

/-- The first document that has a uri among the terms of its uris. -/
def firstWithUri (docs : List Document) (uri : String) : Option Document :=
  docs.find? fun doc => (doc.termsIn Field.uri).contains uri

/-- The numbers of resources in a document are integers. -/
def Document.HasIntegerIds (doc : Document) : Prop :=
  ∀ name ∈ [Field.id, Field.ancestorIds], ∀ v ∈ doc.valuesOf name, v.fieldType = .int32

/-- The number of a resource, which is its first id. -/
def Document.number? (doc : Document) : Option Int32 :=
  match doc.field? Field.id with
  | some (.int32 id) => some id
  | _ => none

namespace Segment

variable {s : Segment} {docs : List Document}

/-- The first document of a set is the first that satisfies `p`. -/
theorem find?_of_first? {found : DocSet} {p : Document → Bool} (h : found.Selects docs p) :
    docs.find? p = found.first?.bind (docs[·]?) := by
  rw [DocSet.first?, toList_eq_scan h, scan, List.head?_filter]
  cases hfirst : (List.range docs.length).find? fun i => docs[i]?.any p with
  | none =>
    rw [List.find?_range_eq_none] at hfirst
    refine List.find?_eq_none.mpr fun doc hdoc => ?_
    obtain ⟨i, hi, rfl⟩ := List.mem_iff_getElem.mp hdoc
    simpa [hi] using hfirst i hi
  | some i =>
    obtain ⟨hp, hi, hbefore⟩ := List.find?_range_eq_some.mp hfirst
    rw [List.mem_range] at hi
    rw [Option.bind_some, List.getElem?_eq_getElem hi, List.find?_eq_some_iff_getElem]
    refine ⟨by simpa [hi] using hp, i, hi, rfl, fun j hj => ?_⟩
    simpa [Nat.lt_trans hj hi] using hbefore j hj

theorem Represents.selects_withTerm (hs : s.Represents docs) (field term : String) :
    (s.withTerm field term).Selects docs fun doc => (doc.termsIn field).contains term := by
  intro i
  simp only [hs.terms, List.contains_iff_mem]

/-- What is fetched of a document is what is stored of it. -/
theorem fetch_eq (hs : s.Represents docs) {i : Nat} {doc : Document} (hdoc : docs[i]? = some doc)
    (selector : FieldSelector) :
    s.fetch ⟨i⟩ selector = .ok ((storedOf doc).filterKeys selector.admits) := by
  have hstored : (s.docs[i]?).map (·.stored) = some (storedOf doc) := by
    rw [← Array.getElem?_toList, ← List.getElem?_map, hs.stored, List.getElem?_map, hdoc]
    rfl
  obtain ⟨segmentDoc, hsegment, heq⟩ := Option.map_eq_some_iff.mp hstored
  simp only [fetch, hsegment, heq]

end Segment

namespace Index

variable {index : Index} {snapshot : SnapshotHandle} {s : Segment} {cache : FilterCache}

theorem engine_lookup_eq (h : index.segment? snapshot = .ok s) (field term : String) :
    engine.lookup snapshot field term (cache, index) =
      (.ok ((s.withTerm field term).first?.map DocId.mk), cache, index) := by
  change (index.lookup snapshot field term, cache, index) = _
  rw [lookup, h]
  rfl

theorem engine_fetch_eq (h : index.segment? snapshot = .ok s) (doc : DocId)
    (selector : FieldSelector) :
    engine.fetch snapshot doc selector (cache, index) = (s.fetch doc selector, cache, index) := by
  change (index.fetch snapshot doc selector, cache, index) = _
  rw [fetch, h]
  rfl

/-- A snapshot shows documents whose values have the types of their fields. -/
structure Shows (index : Index) (snapshot : SnapshotHandle) (schema : Schema)
    (docs : List Document) (s : Segment) : Prop where
  shown : index.segment? snapshot = .ok s
  represents : s.Represents docs
  reserved : schema.KeepsReserved
  conforms : ∀ doc ∈ docs, doc.Conforms schema

end Index

namespace Query

variable {schema : Schema} {docs : List Document} {index : Index} {snapshot : SnapshotHandle}
  {s : Segment} {cache : FilterCache} {state' : FilterCache × Index}

/-- The term of a uri has the documents with that uri. -/
theorem selects_uri (h : index.Shows snapshot schema docs s) (uri : String) :
    (s.withTerm Field.uri uri).Selects docs fun doc =>
      (doc.valuesOf Field.uri).contains (.text uri) := by
  intro i
  rw [h.represents.terms]
  refine exists_congr fun doc => and_congr_right fun hdoc => ?_
  have hdoc := h.conforms doc (List.mem_of_getElem? hdoc)
  rw [List.contains_iff_mem, ← accepts_term_iff_text hdoc h.reserved.typeOf_uri]
  simp [NativeQuery.accepts]

/-- The lookup of a uri finds the first document that has it among the terms of its uris, and
the number that is fetched is the first id of this document. -/
theorem resolveId_run (hsnapshot : index.segment? snapshot = .ok s) (hs : s.Represents docs)
    (hids : ∀ doc ∈ docs, doc.HasIntegerIds) (uri : String) :
    resolveId Index.engine snapshot uri (cache, index) =
      (.ok ((firstWithUri docs uri).bind Document.number?), cache, index) := by
  simp only [resolveId, Step.bind_ok, Step.call_ok]
  refine ⟨_, _, Index.engine_lookup_eq hsnapshot Field.uri uri, ?_⟩
  rw [firstWithUri, Segment.find?_of_first? (hs.selects_withTerm Field.uri uri)]
  cases hfirst : (s.withTerm Field.uri uri).first? with
  | none => rfl
  | some i =>
    have hi : i ∈ s.withTerm Field.uri uri := by
      rw [← DocSet.mem_toList]
      exact List.mem_of_head? hfirst
    obtain ⟨doc, hdoc, -⟩ := (hs.terms _ _ _).mp hi
    have hadmits : (FieldSelector.ofNames [Field.id]).admits Field.id = true := rfl
    simp only [Option.map_some, Step.bind_ok, Step.call_ok]
    refine ⟨_, _, (Index.engine_fetch_eq hsnapshot _ _).trans
      (congrArg (·, cache, index) (Segment.fetch_eq hs hdoc _)), ?_⟩
    rw [Table.get?_filterKeys, if_pos hadmits, Segment.head?_storedOf]
    simp only [hdoc, Option.bind_some, Document.number?]
    cases hfield : doc.field? Field.id with
    | none => rfl
    | some v =>
      have htype := hids doc (List.mem_of_getElem? hdoc) Field.id (by simp) v
        (List.mem_of_head? hfield)
      cases v with
      | int32 n =>
        simp only [Option.map_some, Step.bind_ok, Step.ofExcept_ok,
          StoredValue.decode_stored_int32]
        exact ⟨_, _, ⟨rfl, rfl⟩, rfl⟩
      | _ => cases htype

/-- The native form of a subtree from the number of its resource. -/
def subtreeBelow (id : Option Int32) (inverted : Bool) : NativeQuery :=
  let subtree := match id with
    | some id => .disj [.term Field.id (Term.ofInt32 id), .term Field.ancestorIds (Term.ofInt32 id)]
    | none => .none
  if inverted then .neg subtree else subtree

theorem nativeSubtree_run (hsnapshot : index.segment? snapshot = .ok s) (hs : s.Represents docs)
    (hids : ∀ doc ∈ docs, doc.HasIntegerIds) (uri : String) (inverted : Bool) :
    nativeSubtree Index.engine snapshot uri inverted (cache, index) =
      (.ok (subtreeBelow ((firstWithUri docs (normalUri uri)).bind Document.number?) inverted),
        cache, index) := by
  simp only [nativeSubtree, Step.bind_ok]
  refine ⟨_, _, ⟨_, _, resolveId_run hsnapshot hs hids (normalUri uri), ?_⟩, rfl⟩
  cases (firstWithUri docs (normalUri uri)).bind Document.number? <;> rfl

theorem accepts_subtreeBelow_iff {doc : Document} (hids : doc.HasIntegerIds) {id : Option Int32}
    {inverted : Bool} : (subtreeBelow id inverted).accepts doc = true ↔
      Inverted inverted (∃ n, id = some n ∧
        (.int32 n ∈ doc.valuesOf Field.id ∨ .int32 n ∈ doc.valuesOf Field.ancestorIds)) := by
  refine NativeQuery.accepts_inverted_iff ?_
  cases id with
  | none => simp [NativeQuery.accepts]
  | some n =>
    simp [NativeQuery.accepts_disj_iff, NativeQuery.accepts_ofInt32_iff (hids Field.id (by simp)),
      NativeQuery.accepts_ofInt32_iff (hids Field.ancestorIds (by simp))]

section Shown

variable (hshows : index.Shows snapshot schema docs s)

include hshows

theorem hasIntegerIds_of_shows {doc : Document} (hdoc : doc ∈ docs) : doc.HasIntegerIds := by
  intro name hname v hv
  rw [hshows.conforms doc hdoc name v hv]
  simp only [List.mem_cons, List.not_mem_nil, or_false] at hname
  rcases hname with rfl | rfl
  · exact hshows.reserved.typeOf_id
  · exact hshows.reserved.typeOf_ancestorIds

/-- The first document with the term of a uri is the first that has the uri. -/
theorem number?_firstWithUri (uri : String) :
    (firstWithUri docs uri).bind Document.number? = numberAt docs uri := by
  rw [numberAt, firstWithUri, Segment.find?_of_first? (selects_uri hshows uri),
    Segment.find?_of_first? (hshows.represents.selects_withTerm Field.uri uri)]
  rfl

theorem nativeSubtree_holds {uri : String} {inverted : Bool} {native : NativeQuery}
    (h : nativeSubtree Index.engine snapshot uri inverted (cache, index) = (.ok native, state'))
    {doc : Document} (hdoc : doc ∈ docs) :
    native.accepts doc = true ↔ Holds schema docs doc (.subtree uri inverted) := by
  have hids : ∀ doc ∈ docs, doc.HasIntegerIds := fun doc hdoc => hasIntegerIds_of_shows hshows hdoc
  rw [nativeSubtree_run hshows.shown hshows.represents hids, number?_firstWithUri hshows] at h
  obtain rfl := Except.ok.inj (Prod.mk.inj h).1
  exact accepts_subtreeBelow_iff (hids doc hdoc)

end Shown

-- ---------------------------------------------------------------------------
-- Translation
-- ---------------------------------------------------------------------------

mutual

/-- A document satisfies the native form of a query just when it satisfies the query. -/
theorem translate_holds (hshows : index.Shows snapshot schema docs s) {doc : Document}
    (hdoc : doc ∈ docs) : (query : Query) → {native : NativeQuery} →
      {state' : FilterCache × Index} →
      query.translate schema Index.engine snapshot (cache, index) = (.ok native, state') →
        (native.accepts doc = true ↔ Holds schema docs doc query)
  | .term .., _, _, h =>
    nativeTerm_holds (hshows.represents.indexable doc hdoc) (hshows.conforms doc hdoc)
      (Step.ofExcept_ok.mp h).1
  | .startsWith .., _, _, h =>
    nativeStartsWith_holds (hshows.conforms doc hdoc) (Step.ofExcept_ok.mp h).1
  | .range .., _, _, h =>
    nativeRange_holds (hshows.represents.indexable doc hdoc) (hshows.conforms doc hdoc)
      (Step.ofExcept_ok.mp h).1
  | .wildcard .., _, _, h =>
    nativeWildcard_holds (hshows.conforms doc hdoc) (Step.ofExcept_ok.mp h).1
  | .present _, _, _, h => by
    obtain ⟨rfl, -⟩ := Step.pure_ok.mp h
    exact NativeQuery.accepts_present_iff
  | .subtree .., _, _, h => nativeSubtree_holds hshows h hdoc
  | .uriDepth _, _, _, h =>
    nativeUriDepth_holds (hshows.conforms doc hdoc) hshows.reserved (Step.ofExcept_ok.mp h).1
  | .resourceType .., _, _, h =>
    nativeResourceType_holds (hshows.conforms doc hdoc) hshows.reserved (Step.ofExcept_ok.mp h).1
  | .membership .., _, _, h =>
    nativeMembership_holds (hshows.represents.indexable doc hdoc) (hshows.conforms doc hdoc)
      (Step.ofExcept_ok.mp h).1
  | .conj clauses, _, _, h => by
    simp only [translate, Step.bind_ok, Step.pure_ok] at h
    obtain ⟨natives, _, hnatives, rfl, -⟩ := h
    rw [NativeQuery.accepts_conj_iff, Holds]
    exact (translateAll_holds hshows hdoc clauses hnatives).1
  | .disj clauses, _, _, h => by
    simp only [translate, Step.bind_ok, Step.pure_ok] at h
    obtain ⟨natives, _, hnatives, rfl, -⟩ := h
    rw [NativeQuery.accepts_disj_iff, Holds]
    exact (translateAll_holds hshows hdoc clauses hnatives).2

theorem translateAll_holds (hshows : index.Shows snapshot schema docs s) {doc : Document}
    (hdoc : doc ∈ docs) : (clauses : List Query) → {natives : List NativeQuery} →
      {state' : FilterCache × Index} →
      translateAll schema Index.engine snapshot clauses (cache, index) = (.ok natives, state') →
        ((∀ native ∈ natives, native.accepts doc = true) ↔ HoldAll schema docs doc clauses) ∧
          ((∃ native ∈ natives, native.accepts doc = true) ↔ HoldsAny schema docs doc clauses)
  | [], _, _, h => by
    obtain ⟨rfl, -⟩ := Step.pure_ok.mp h
    simp [HoldAll, HoldsAny]
  | query :: rest, _, _, h => by
    simp only [translateAll, Step.bind_ok, Step.pure_ok] at h
    obtain ⟨native, _, hnative, others, _, hothers, rfl, -⟩ := h
    rw [(translate_unshared query hnative).1] at hothers
    have hfirst := translate_holds hshows hdoc query hnative
    obtain ⟨hall, hany⟩ := translateAll_holds hshows hdoc rest hothers
    simp only [List.mem_cons, forall_eq_or_imp, exists_eq_or_imp, hfirst, hall, hany, HoldAll,
      HoldsAny, and_self]

end

end Query

-- ---------------------------------------------------------------------------
-- Execution
-- ---------------------------------------------------------------------------

namespace Index

/-- The cells after a query has been executed with these limits and in these orders. -/
def cellsAfter (index : Index) (snapshot : SnapshotHandle) (query : NativeQuery)
    (runs : List (Nat × Sorting)) (cache : FilterCache) : FilterCache :=
  runs.foldl (fun cache run => (index.execute snapshot query run.1 run.2 cache).2) cache

theorem cellsAfter_settled {index : Index} {snapshot : SnapshotHandle} {s : Segment}
    {docs : List Document} {query : NativeQuery} {cache : FilterCache} (hs : s.Represents docs)
    (hsnapshot : index.segment? snapshot = .ok s) (hown : WildcardFilter.OwnCells query.filters)
    (hcache : cache.Settled s query.filters) (runs : List (Nat × Sorting)) :
    (index.cellsAfter snapshot query runs cache).Settled s query.filters := by
  unfold cellsAfter
  induction runs generalizing cache with
  | nil => exact hcache
  | cons run runs ih =>
    rw [List.foldl_cons, execute_eq hsnapshot]
    exact ih (Segment.top_settled hs hown hcache (fun _ hf => hf) run.1 run.2).2

/-- A translated query finds the documents that satisfy the query. There is one ranking of them
in each order, and every execution, the first or a later one, answers with its first places. -/
theorem execute_finds_holds {schema : Schema} {index committed later later' : Index}
    {version : Nat} {snapshot : SnapshotHandle} {query : Query} {native shared : NativeQuery}
    {cells cells' cache : FilterCache} (hreserved : schema.KeepsReserved)
    (hcommit : index.commit = (.ok version, committed))
    (hconforms : ∀ doc ∈ index.staged, doc.Conforms schema)
    (hsnapshot : later.segment? snapshot = .ok committed.current)
    (htranslate : query.translate schema engine snapshot (cells, later) =
      (.ok native, cells', later'))
    (hshared : (shared == native) = true) (hown : WildcardFilter.OwnCells shared.filters)
    (hfresh : cache.Fresh shared.filters) (sorting : Sorting) :
    ∃ ranked : List Nat, ranked.Nodup ∧
      (∀ i, i ∈ ranked ↔
        ∃ doc, index.staged[i]? = some doc ∧ query.Holds schema index.staged doc) ∧
      ∀ runs limit, (later'.execute snapshot shared limit sorting
          (later'.cellsAfter snapshot shared runs cache)).1 =
        .ok ⟨(ranked.take limit).map DocId.mk, ranked.length⟩ := by
  have hs := commit_represents hcommit
  obtain ⟨rfl, rfl⟩ := Prod.mk.inj (Query.translate_unshared query htranslate).1
  have hshows : later'.Shows snapshot schema index.staged committed.current :=
    ⟨hsnapshot, hs, hreserved, hconforms⟩
  have hperm := committed.current.inOrder_perm sorting (Segment.scan index.staged shared.accepts)
  refine ⟨committed.current.inOrder sorting (Segment.scan index.staged shared.accepts), ?_, ?_, ?_⟩
  · exact hperm.nodup_iff.mpr (List.Nodup.filter _ List.nodup_range)
  · intro i
    rw [hperm.mem_iff, Segment.mem_scan]
    refine exists_congr fun doc => and_congr_right fun hdoc => ?_
    rw [NativeQuery.accepts_congr hshared]
    exact Query.translate_holds hshows (List.mem_of_getElem? hdoc) query htranslate
  · intro runs limit
    have hcache := cellsAfter_settled hs hsnapshot hown hfresh.settled runs
    rw [execute_eq hsnapshot, hperm.length_eq]
    exact congrArg Except.ok (Segment.top_settled hs hown hcache (fun _ hf => hf) limit sorting).1

/-- Below a uri with a tag, and below another. -/
def taggedBelow : Query :=
  .conj [.wildcard "tag" "*", .subtree "/a/" true, .term "tag" .ge "w"]

/-- Its native form with a cell for its filter. -/
def taggedBelowShared : NativeQuery :=
  .bool [.wildcard ⟨"tag", "*", some 0⟩, .neg .none, .range "tag" (.inclusive "w") .unbounded] [] []

theorem execute_finds_holds_tagged :
    ∃ ranked : List Nat, ranked.Nodup ∧
      (∀ i, i ∈ ranked ↔ ∃ doc, tagged.staged[i]? = some doc ∧
        taggedBelow.Holds Schema.initial tagged.staged doc) ∧
      ∀ runs limit, (tagged.commit.2.acquire.2.execute ⟨1⟩ taggedBelowShared limit .documentOrder
          (tagged.commit.2.acquire.2.cellsAfter ⟨1⟩ taggedBelowShared runs .empty)).1 =
        .ok ⟨(ranked.take limit).map DocId.mk, ranked.length⟩ := by
  have hcommit : tagged.commit = (.ok 1, tagged.commit.2) := rfl
  have hsnapshot : tagged.commit.2.acquire.2.segment? ⟨1⟩ = .ok tagged.commit.2.current := rfl
  have hconforms : ∀ doc ∈ tagged.staged, doc.Conforms Schema.initial := by decide
  have htranslate : taggedBelow.translate Schema.initial engine ⟨1⟩
      (.empty, tagged.commit.2.acquire.2) = (.ok (.bool [.wildcard ⟨"tag", "*", none⟩, .neg .none,
        .range "tag" (.inclusive "w") .unbounded] [] []), .empty, tagged.commit.2.acquire.2) := rfl
  exact execute_finds_holds Schema.initial_keepsReserved hcommit hconforms hsnapshot htranslate
    rfl (by decide) (by decide) .documentOrder

end Index

end GuardedSearch
