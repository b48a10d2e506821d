import GuardedSearch.Proofs.CalendarDates
import GuardedSearch.Proofs.Successes

/-!
# What a record shows

A record is made of what is fetched of a document, decoded field by field as the schema has it.
`recordOf_shows` says what it is in terms of the document: the first uri, and of the selected
fields, apart from the uri, the document's own values. `search_records_show` says so of every
record that a search returns.
-/

namespace GuardedSearch

/-- Whether a property is selected. -/
def PropertySelect.admits : PropertySelect → String → Bool
  | .all, _ => true
  | .none, _ => false
  | .named names, name => names.contains name

/-- A record shows a document: its first uri, and the selected fields that have values, with all of
these in their order. The uri is no property, whether it is selected or not. -/
structure ResultRecord.Shows (r : ResultRecord) (doc : Document) (select : PropertySelect) :
    Prop where
  uri : doc.field? Field.uri = some (.text r.uri)
  properties : ∀ field, r.properties.get? field =
    if field ≠ Field.uri ∧ select.admits field = true ∧ doc.valuesOf field ≠ [] then
      some ((doc.valuesOf field).map FieldValue.shown)
    else none

-- ---------------------------------------------------------------------------
-- Fields
-- ---------------------------------------------------------------------------

/-- Nothing but a text is shown as it. -/
theorem FieldValue.eq_text_of_shown {v : FieldValue} {text : String} (h : v.shown = .text text) :
    v = .text text := by
  cases v with
  | date t => cases h
  | _ => exact h

/-- A record is made of what is selected and of the uri. -/
theorem Searcher.recordSelector_admits_iff (select : PropertySelect) (field : String) :
    (recordSelector select).admits field = true ↔
      field = Field.uri ∨ select.admits field = true := by
  cases select with
  | all => simp [recordSelector, FieldSelector.admits, PropertySelect.admits]
  | none =>
    simp only [recordSelector, FieldSelector.ofNames, FieldSelector.admits, PropertySelect.admits]
    change ((Table.insert Table.empty Field.uri ()).get? field).isSome = true ↔ _
    rw [Table.get?_insert]
    split <;> simp_all
  | named names =>
    change ((names.insert Field.uri ()).get? field).isSome = true ↔ _
    rw [Table.get?_insert]
    split <;> simp_all [PropertySelect.admits, Table.contains]

namespace Segment

/-- What is decoded of a fetched document: of every field that is asked for and has values, these
as they are shown. -/
def decodedOf (doc : Document) (selector : FieldSelector) : Table (List FieldValue) :=
  ⟨(fetchedOf doc selector).entries.map fun e => (e.1, (doc.valuesOf e.1).map FieldValue.shown),
    List.pairwise_map.mpr (fetchedOf doc selector).sorted⟩

theorem get?_decodedOf (doc : Document) (selector : FieldSelector) (field : String) :
    (decodedOf doc selector).get? field =
      if selector.admits field = true ∧ doc.valuesOf field ≠ [] then
        some ((doc.valuesOf field).map FieldValue.shown)
      else none := by
  change List.lookup field (List.map _ _) = _
  rw [lookup_decoded, ← Table.get?, fetchedOf, Table.get?_filterKeys, get?_storedOf]
  by_cases hadmits : selector.admits field = true <;>
    by_cases hvalues : doc.valuesOf field = [] <;> simp [hadmits, hvalues]

end Segment

namespace Searcher

variable {doc : Document} {schema : Schema} {id : DocId} {select : PropertySelect}
  {r : ResultRecord}

/-- The record that is made of a fetched document shows the document. -/
theorem recordOf_shows (h : doc.Conforms schema)
    (hr : recordOf schema id (Segment.fetchedOf doc (recordSelector select)) = .ok r) :
    r.Shows doc select := by
  simp only [recordOf, Outcome.bind_ok] at hr
  obtain ⟨decoded, hdecoded, hr⟩ := hr
  obtain rfl : (Segment.decodedOf doc (recordSelector select)).entries = decoded :=
    Except.ok.inj ((Segment.decode_fetchedOf h).symm.trans hdecoded)
  split at hr
  · next uri huri =>
    obtain rfl := Outcome.pure_ok.mp hr
    refine ⟨?_, fun field => ?_⟩
    · rw [← Table.get?, Segment.get?_decodedOf] at huri
      split at huri
      · rw [Option.bind_some, List.head?_map, Option.map_eq_some_iff] at huri
        obtain ⟨first, hfirst, hshown⟩ := huri
        rw [Document.field?, hfirst, FieldValue.eq_text_of_shown hshown]
      · cases huri
    · change (Table.ofList ((Segment.decodedOf doc (recordSelector select)).filterKeys
        fun name => name ≠ Field.uri).entries).get? field = _
      rw [Table.ofList_entries, Table.get?_filterKeys, Segment.get?_decodedOf]
      simp only [recordSelector_admits_iff]
      by_cases hfield : field = Field.uri <;> simp [hfield]
  · cases hr

end Searcher

-- ---------------------------------------------------------------------------
-- Searches
-- ---------------------------------------------------------------------------

/-- Whatever is fetched is fetched of a document. -/
theorem Segment.exists_of_fetch {s : Segment} {docs : List Document} {id : DocId}
    {selector : FieldSelector} {stored : StoredFields} (hrepresents : s.Represents docs)
    (h : s.fetch id selector = .ok stored) :
    ∃ doc, docs[id.ordinal]? = some doc ∧ stored = fetchedOf doc selector := by
  have hplace : id.ordinal < docs.length := by
    rw [fetch] at h
    split at h
    · next entry hentry =>
      rw [← hrepresents.size_eq]
      exact (Array.getElem?_eq_some_iff.mp hentry).1
    · cases h
  have hdoc := List.getElem?_eq_getElem hplace
  exact ⟨_, hdoc, Except.ok.inj (h.symm.trans (fetch_eq hrepresents hdoc selector))⟩

/-- A record that is read through a snapshot shows the document in its place. -/
theorem Index.record?_shows {index : Index} {snapshot : SnapshotHandle} {s : Segment}
    {docs : List Document} {schema : Schema} {select : PropertySelect} {id : DocId}
    {r : ResultRecord} (hs : index.segment? snapshot = .ok s) (hrepresents : s.Represents docs)
    (hconforms : ∀ doc ∈ docs, doc.Conforms schema)
    (hr : index.record? snapshot schema select id = some r) :
    ∃ doc, docs[r.docId.ordinal]? = some doc ∧ r.Shows doc select := by
  obtain rfl := record?_docId hr
  rw [record?] at hr
  split at hr
  · next stored hstored =>
    rw [fetch, Outcome.bind_ok] at hstored
    obtain ⟨segment, hsegment, hstored⟩ := hstored
    obtain rfl := Except.ok.inj (hs.symm.trans hsegment)
    obtain ⟨doc, hdoc, rfl⟩ := Segment.exists_of_fetch hrepresents hstored
    have hconforms := hconforms doc (List.mem_of_getElem? hdoc)
    exact ⟨doc, hdoc, Searcher.recordOf_shows hconforms (Outcome.toOption_eq_some.mp hr)⟩
  · cases hr

section Searches

variable {τ : Type} {s : Searcher ((FilterCache × Index) × τ)}
  (hengine : s.engine = Index.engine.beside τ) (hevolves : s.oracle.EvolvesIndex)

include hengine hevolves

namespace Searcher

variable {token : Token} {request : SearchRequest}

/-- The records of a search are read through its snapshot. -/
theorem plan_records {index : Index} {cells : FilterCache} {other : τ}
    (hneed : 0 < request.need s.config.maxLimit) {result : ResultSet}
    {state' : (FilterCache × Index) × τ}
    (h : (s.plan token request index.acquire.1 hneed).run s ((cells, index.acquire.2), other) =
      (.ok result, state')) :
    ∀ r ∈ result.records,
      ∃ id, index.acquire.2.record? index.acquire.1 s.schema request.select id = some r := by
  rw [plan] at h
  obtain ⟨native, mid, hnative, h, -⟩ := Plan.bind_ok h
  have hmid := Plan.run_evolves hengine hevolves .refl hnative
  obtain ⟨findings, ⟨shared, memory⟩, hfindings, h, -⟩ := Plan.bind_ok h
  have hafter := Plan.run_evolves hengine hevolves hmid hfindings
  obtain ⟨records, last, hrecords, h, -⟩ := Plan.bind_ok h
  obtain ⟨rfl, -⟩ := Step.pure_ok.mp h
  rw [Plan.run_beside (t := s.overIndex) (materializeAllPlan_reads _) hengine] at hrecords
  have hok : (s.overIndex.materializeAll index.acquire.1 request.select (page request.cursor
      (request.need s.config.maxLimit) findings.authorized) shared).1 = .ok records := by
    rw [← materializeAllPlan_run]
    exact congrArg Prod.fst hrecords
  obtain ⟨-, hread⟩ := materializeAll_ok (s := s.overIndex) rfl hafter (Nat.le_refl _)
    (Prod.ext hok rfl)
  intro r hr
  obtain ⟨id, -, hid⟩ := List.mem_map.mp (hread ▸ List.mem_map_of_mem (f := some) hr)
  exact ⟨id, hid⟩

/-- Every record of a search shows its document. Whatever has been added, deleted and published
before, if the published documents have values of the types of the schema, the document in the
place that a record names is shown with its first uri and with all values of those of its fields
that are selected, in their order and with their types; a date is cut to its whole second. No
other field is shown, whatever the oracle does to the index meanwhile. -/
theorem search_records_show {operations : List Index.Operation}
    (hconforms : ∀ doc ∈ Index.empty.published [] operations, doc.Conforms s.schema)
    {index : Index} (hindex : Index.empty.run operations = index) (token : Token)
    (request : SearchRequest) (cells : FilterCache) (other : τ) {result : ResultSet}
    (h : (s.search token request ((cells, index), other)).1 = .ok result) :
    ∀ r ∈ result.records, ∃ doc,
      (Index.empty.published [] operations)[r.docId.ordinal]? = some doc ∧
        r.Shows doc request.select := by
  by_cases hneed : request.need s.config.maxLimit = 0
  · rw [search_of_need_eq_zero s token hneed] at h
    obtain rfl := Except.ok.inj h
    exact List.forall_mem_nil _
  · have hpos := Nat.pos_of_ne_zero hneed
    have hacquire : s.engine.acquire ((cells, index), other) =
        (.ok index.acquire.1, (cells, index.acquire.2), other) := by
      rw [hengine]
      rfl
    rw [search_of_acquire_ok hpos hacquire] at h
    have hrecords := plan_records hengine hevolves hpos (Prod.ext h rfl)
    have hacquired : (Index.empty.run operations).acquire = (index.acquire.1, index.acquire.2) := by
      rw [hindex]
    have hopen : .release index.acquire.1 ∉ ([] : List Index.Operation) := List.not_mem_nil
    obtain ⟨segment, hsegment, hrepresents, -⟩ := Index.acquire_shows_published hacquired hopen
    intro r hr
    obtain ⟨id, hid⟩ := hrecords r hr
    exact Index.record?_shows hsegment hrepresents hconforms hid

end Searcher

end Searches

namespace Searcher

theorem publishing_evolvesIndex : publishing.EvolvesIndex := by
  rintro token batch ⟨⟨cells, index⟩, calls⟩
  exact index.evolves_run _

theorem halfSecond_lt : 500000000 < nanosPerSecond := by decide

/-- Half a second after the new year. -/
def halfSecond2017 : Instant := Instant.newYear2017.withNanos 500000000 halfSecond_lt

/-- A document with two uris, two dates, a color and an acl node. -/
def halfSecondDocument : Document :=
  Document.empty
    |>.addValue Field.uri (.text "/a")
    |>.addValue Field.uri (.text "/also")
    |>.addValue "made" (.date halfSecond2017)
    |>.addValue "made" (.date .newYear2017)
    |>.addValue "color" (.text "red")
    |>.addValue Field.aclNodeId (.int32 7)

/-- The uri, the dates and the sizes of a document that is dated. -/
def madeRequest : SearchRequest :=
  datedRequest.withSelect (.named (NameSet.ofNames [Field.uri, "made", "size"]))

/-- The record shows the first uri and both dates, cut to whole seconds, and nothing else. -/
theorem search_records_show_made : ∃ result r,
    (overPublishing.search ⟨"caller"⟩ madeRequest
        ((.empty, Index.empty.run [.add halfSecondDocument, .commit]), 0)).1 = .ok result ∧
      result.records = [r] ∧ r.Shows halfSecondDocument madeRequest.select ∧ r.uri = "/a" ∧
      r.properties = Table.ofList [("made", [.date .newYear2017, .date .newYear2017])] := by
  have hfound : (overPublishing.search ⟨"caller"⟩ madeRequest
      ((.empty, Index.empty.run [.add halfSecondDocument, .commit]), 0)).1.toOption.map (·.records) =
        some [⟨⟨0⟩, "/a", Table.ofList [("made", [.date .newYear2017, .date .newYear2017])]⟩] := by
    decide +kernel
  obtain ⟨result, hresult, hrecords⟩ := Option.map_eq_some_iff.mp hfound
  rw [Outcome.toOption_eq_some] at hresult
  have hpublished :
      Index.empty.published [] [.add halfSecondDocument, .commit] = [halfSecondDocument] := by
    decide +kernel
  have hconforms : ∀ doc ∈ Index.empty.published [] [.add halfSecondDocument, .commit],
      doc.Conforms overPublishing.schema := by
    rw [hpublished]
    decide
  obtain ⟨doc, hdoc, hshows⟩ := search_records_show rfl publishing_evolvesIndex hconforms rfl
    ⟨"caller"⟩ madeRequest .empty 0 hresult _ (hrecords ▸ List.mem_singleton_self _)
  rw [hpublished] at hdoc
  obtain rfl := Option.some.inj hdoc
  exact ⟨result, _, hresult, hrecords, hshows, rfl, rfl⟩

end Searcher

end GuardedSearch
