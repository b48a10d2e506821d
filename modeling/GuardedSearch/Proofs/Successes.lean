import GuardedSearch.Proofs.Batches
import GuardedSearch.Proofs.Descriptors
import GuardedSearch.Proofs.ShownValues

/-!
# Searches that do not fail

Where every value of the accepted documents has the type that the schema gives its field, a search
of a query that has been translated comes to its end: what it executes, fetches and decodes is
there and has the form it should have, round after round (`search_succeeds`).
-/

namespace GuardedSearch

variable {σ τ : Type} {α β : Type}

-- ---------------------------------------------------------------------------
-- Histories of documents that fit a schema
-- ---------------------------------------------------------------------------

/-- A document that an index accepts, with values of the types that a schema gives its fields. -/
structure Document.Fits (doc : Document) (schema : Schema) : Prop where
  accepted : Index.fault? doc = none
  conforms : doc.Conforms schema

/-- Every document that is accepted on the way has values of the types of a schema. -/
def Index.AddsConforming (schema : Schema) (operations : List Index.Operation) : Prop :=
  ∀ doc, .add doc ∈ operations → Index.fault? doc = none → doc.Conforms schema

namespace Index

variable {index : Index} {schema : Schema}

/-- What is staged and what is published fits a schema. -/
structure Fits (index : Index) (schema : Schema) : Prop where
  staged : ∀ doc ∈ index.staged, doc.Fits schema
  published : ∃ docs, index.current.Represents docs ∧ ∀ doc ∈ docs, doc.Fits schema

theorem empty_fits (schema : Schema) : empty.Fits schema where
  staged := List.forall_mem_nil _
  published := ⟨[], Segment.initial_represents 0, List.forall_mem_nil _⟩

theorem Fits.after (h : index.Fits schema) {operation : Operation}
    (hadd : ∀ doc, operation = .add doc → fault? doc = none → doc.Conforms schema) :
    (index.after operation).Fits schema := by
  cases operation with
  | add doc =>
    rw [Index.after]
    cases hindex : index.add doc with
    | ok index' =>
      obtain ⟨haccepted, rfl⟩ := add_ok_iff.mp hindex
      refine ⟨fun d hd => ?_, h.published⟩
      rcases mem_stage hd with rfl | hd
      · exact ⟨haccepted, hadd d rfl haccepted⟩
      · exact h.staged d hd
    | error e => exact h
  | delete uri => exact ⟨fun d hd => h.staged d (List.mem_filter.mp hd).1, h.published⟩
  | commit =>
    rw [Index.after]
    refine ⟨index.commit_staged ▸ h.staged, ?_⟩
    cases hbuild : Segment.build (index.commits + 1) index.staged with
    | ok s =>
      rw [commit_current_of_ok hbuild]
      exact ⟨_, Segment.build_represents hbuild, h.staged⟩
    | error e =>
      rw [commit_current_of_error hbuild]
      exact h.published
  | acquire => exact ⟨h.staged, h.published⟩
  | release snapshot => exact ⟨h.staged, h.published⟩

theorem Fits.run (h : index.Fits schema) {operations : List Operation}
    (hadds : AddsConforming schema operations) : (index.run operations).Fits schema := by
  induction operations generalizing index with
  | nil => exact h
  | cons operation rest ih =>
    refine ih (h.after ?_) fun doc hdoc => hadds doc (List.mem_cons_of_mem _ hdoc)
    rintro doc rfl
    exact hadds doc (List.mem_cons_self ..)

/-- A snapshot that has been acquired is open and shows this segment. -/
structure Pins (index : Index) (snapshot : SnapshotHandle) (s : Segment) : Prop where
  shown : index.segment? snapshot = .ok s
  acquired : snapshot.id ≤ index.acquired

theorem acquire_pins_current (index : Index) :
    index.acquire.2.Pins index.acquire.1 index.current where
  shown := segment?_eq_iff.mpr List.lookup_cons_self
  acquired := Nat.le_refl _

theorem Pins.run {snapshot : SnapshotHandle} {s : Segment} (h : index.Pins snapshot s)
    {operations : List Operation} (hspares : .release snapshot ∉ operations) :
    (index.run operations).Pins snapshot s where
  shown := by
    rw [segment?_eq_iff, lookup_run h.acquired, if_neg hspares]
    exact segment?_eq_iff.mp h.shown
  acquired := Nat.le_trans h.acquired (index.evolves_run operations).acquired_le

end Index

-- ---------------------------------------------------------------------------
-- Reads of documents
-- ---------------------------------------------------------------------------

namespace Document.Fits

variable {doc : Document} {schema : Schema}

theorem exists_uri (h : doc.Fits schema) : ∃ uri, doc.field? Field.uri = some (.text uri) := by
  have huri := (Index.fault?_eq_none_iff.mp h.accepted).1
  rw [Index.uriOf?] at huri
  split at huri
  · next uri hfield => exact ⟨uri, hfield⟩
  · cases huri

theorem hasReadableNode (h : doc.Fits schema) (hreserved : schema.KeepsReserved) :
    doc.HasReadableNode := by
  intro v hv
  rw [h.conforms _ v (List.mem_of_head? hv), hreserved.typeOf_aclNodeId]

end Document.Fits

namespace Segment

variable {doc : Document} {schema : Schema} {selector : FieldSelector}

theorem snd_of_mem_fetchedOf {e : String × List StoredValue}
    (h : e ∈ (fetchedOf doc selector).entries) :
    e.2 = (doc.valuesOf e.1).map FieldValue.stored := by
  have hstored := Table.mem_entries_iff.mp (List.mem_filter.mp h).1
  rw [get?_storedOf] at hstored
  split at hstored
  · cases hstored
  · exact (Option.some.inj hstored).symm

theorem decode_values {values : List FieldValue} {type : FieldType}
    (h : ∀ v ∈ values, v.fieldType = type) :
    (values.map FieldValue.stored).mapM (StoredValue.decode type) =
      .ok (values.map FieldValue.shown) := by
  rw [Outcome.mapM_ok, List.map_map, List.map_map]
  refine List.map_congr_left fun v hv => ?_
  rw [Function.comp_apply, ← h v hv, v.decode_stored]
  rfl

/-- What is fetched of a document is decoded as the values that are shown for its own. -/
theorem decode_fetchedOf (h : doc.Conforms schema) :
    (fetchedOf doc selector).entries.mapM (m := Except Error) (fun e => do
        return (e.1, ← e.2.mapM (StoredValue.decode (schema.typeOf e.1)))) =
      .ok ((fetchedOf doc selector).entries.map fun e =>
        (e.1, (doc.valuesOf e.1).map FieldValue.shown)) := by
  rw [Outcome.mapM_ok, List.map_map]
  refine List.map_congr_left fun e he => ?_
  rw [snd_of_mem_fetchedOf he, decode_values (h e.1)]
  rfl

theorem lookup_decoded (doc : Document) (stored : List (String × List StoredValue))
    (field : String) :
    (stored.map fun e => (e.1, (doc.valuesOf e.1).map FieldValue.shown)).lookup field =
      (stored.lookup field).map fun _ => (doc.valuesOf field).map FieldValue.shown := by
  induction stored with
  | nil => rfl
  | cons e rest ih =>
    rw [List.map_cons, List.lookup_cons, List.lookup_cons]
    cases hfield : field == e.1 with
    | true => rw [eq_of_beq hfield, Option.map_some]
    | false => exact ih

end Segment

theorem SecurityDescriptor.exists_ofStored {doc : Document} {schema : Schema} (h : doc.Fits schema)
    (hreserved : schema.KeepsReserved) (id : DocId) :
    ∃ d, ofStored id (Segment.fetchedOf doc selector) = .ok d := by
  rw [ofStored_fetchedOf, exists_ofDocument_iff id (Index.fault?_eq_none_iff.mp h.accepted).1]
  exact h.hasReadableNode hreserved

namespace Searcher

theorem recordSelector_admits_uri (select : PropertySelect) :
    (recordSelector select).admits Field.uri = true := by
  cases select with
  | all => rfl
  | none => decide
  | named names =>
    change ((names.insert Field.uri ()).get? Field.uri).isSome = true
    rw [Table.get?_insert, if_pos rfl]
    rfl

theorem exists_recordOf {doc : Document} {schema : Schema} (h : doc.Fits schema) (id : DocId)
    (select : PropertySelect) :
    ∃ r, recordOf schema id (Segment.fetchedOf doc (recordSelector select)) = .ok r := by
  obtain ⟨uri, huri⟩ := h.exists_uri
  have hstored := Segment.head?_fetchedOf doc (recordSelector_admits_uri select)
  rw [huri] at hstored
  obtain ⟨values, hvalues, -⟩ := Option.bind_eq_some_iff.mp hstored
  have hhead : (((Segment.fetchedOf doc (recordSelector select)).entries.map fun e =>
      (e.1, (doc.valuesOf e.1).map FieldValue.shown)).lookup Field.uri).bind (·.head?) =
        some (.text uri) := by
    rw [Segment.lookup_decoded, ← Table.get?, hvalues, Option.map_some, Option.bind_some,
      List.head?_map]
    exact congrArg _ huri
  simp only [recordOf, Outcome.bind_ok]
  exact ⟨_, _, Segment.decode_fetchedOf h.conforms, by rw [hhead]; rfl⟩

end Searcher

-- ---------------------------------------------------------------------------
-- Steps that end with a value
-- ---------------------------------------------------------------------------

namespace Step

variable {I : σ → Prop} {x : Step σ α} {Q : α → Prop} {R : β → Prop}

/-- Begun where the invariant holds, a step ends with a value that satisfies `Q`, and the
invariant holds again. -/
def Succeeds (I : σ → Prop) (x : Step σ α) (Q : α → Prop) : Prop :=
  ∀ state, I state → ∃ a state', x state = (.ok a, state') ∧ I state' ∧ Q a

namespace Succeeds

theorem pure {a : α} (h : Q a) : Succeeds I (pure a) Q :=
  fun state hstate => ⟨a, state, rfl, hstate, h⟩

theorem bind {f : α → Step σ β} (h : Succeeds I x Q) (hrest : ∀ a, Q a → Succeeds I (f a) R) :
    Succeeds I (x >>= f) R := by
  intro state hstate
  obtain ⟨a, mid, hx, hmid, ha⟩ := h state hstate
  obtain ⟨b, state', hf, hstate', hb⟩ := hrest a ha mid hmid
  exact ⟨b, state', Step.bind_ok.mpr ⟨a, mid, hx, hf⟩, hstate', hb⟩

theorem ofExcept {r : Except Error α} (h : ∃ a, r = .ok a ∧ Q a) : Succeeds I (ofExcept r) Q := by
  obtain ⟨a, rfl, ha⟩ := h
  exact fun state hstate => ⟨a, state, rfl, hstate, ha⟩

theorem call {answer : StateM σ (Except EngineError α)}
    (h : ∀ state, I state → ∃ a state', answer state = (.ok a, state') ∧ I state' ∧ Q a) :
    Succeeds I (call answer) Q := by
  intro state hstate
  obtain ⟨a, state', hanswer, hstate', ha⟩ := h state hstate
  exact ⟨a, state', Step.call_ok.mpr hanswer, hstate', ha⟩

end Succeeds

end Step

-- ---------------------------------------------------------------------------
-- Oracles
-- ---------------------------------------------------------------------------

/-- What an oracle is told of a document, without its answer. -/
def SecurityDescriptor.unmarked (d : SecurityDescriptor) : SecurityDescriptor :=
  { d with authorized := false }

namespace Oracle

/-- The oracle answers every batch, and changes only the marks in it. -/
def MarksOnly (oracle : Oracle σ) : Prop :=
  ∀ token batch state, ∃ answered, (oracle.authorize token batch state).1 = .ok answered ∧
    answered.map SecurityDescriptor.unmarked = batch.map SecurityDescriptor.unmarked

/-- What happens to the index while the oracle answers are operations of the index, and none of
them releases this snapshot. -/
def Spares (oracle : Oracle ((FilterCache × Index) × τ)) (snapshot : SnapshotHandle) : Prop :=
  ∀ token batch state, ∃ operations, .release snapshot ∉ operations ∧
    (oracle.authorize token batch state).2.1.2 = state.1.2.run operations

theorem MarksOnly.docIds {oracle : Oracle σ} (h : oracle.MarksOnly) (token : Token)
    (batch : List SecurityDescriptor) (state : σ) :
    ∃ answered, (oracle.authorize token batch state).1 = .ok answered ∧
      answered.map (·.docId) = batch.map (·.docId) := by
  obtain ⟨answered, hanswered, hsame⟩ := h token batch state
  have hdocIds := congrArg (List.map SecurityDescriptor.docId) hsame
  rw [List.map_map, List.map_map] at hdocIds
  exact ⟨answered, hanswered, hdocIds⟩

end Oracle

namespace Searcher

variable {s : Searcher ((FilterCache × Index) × τ)} {token : Token} {request : SearchRequest}
  {snapshot : SnapshotHandle} {segment : Segment} {docs : List Document}

-- ---------------------------------------------------------------------------
-- Rounds
-- ---------------------------------------------------------------------------

/-- The ordinals are of these documents. -/
def Within (docs : List Document) (ids : List DocId) : Prop := ∀ id ∈ ids, id.ordinal < docs.length

/-- The state of a search that holds this snapshot. -/
def Holding (snapshot : SnapshotHandle) (segment : Segment) (state : (FilterCache × Index) × τ) :
    Prop :=
  state.1.2.Pins snapshot segment

section Rounds

variable (hengine : s.engine = Index.engine.beside τ) (hrepresents : segment.Represents docs)
  (hfits : ∀ doc ∈ docs, doc.Fits s.schema)

include hengine hrepresents

theorem fetch_succeeds {id : DocId} (hid : id.ordinal < docs.length) (selector : FieldSelector) :
    Step.Succeeds (Holding snapshot segment) (Step.call (s.engine.fetch snapshot id selector))
      fun stored => ∃ doc ∈ docs, stored = Segment.fetchedOf doc selector := by
  rintro ⟨⟨cells, index⟩, other⟩ hpins
  have hfetch := call_fetch_run hengine hpins.shown hrepresents (List.getElem?_eq_getElem hid)
    selector cells other
  exact ⟨_, _, hfetch, hpins, _, List.getElem_mem hid, rfl⟩

theorem execute_succeeds (query : NativeQuery) (limit : Nat) (sorting : Sorting) :
    Step.Succeeds (Holding snapshot segment)
      (Step.call (s.engine.execute snapshot query limit sorting))
      fun top => Within docs top.docs := by
  refine .call fun state hpins => ?_
  obtain ⟨⟨cells, index⟩, other⟩ := state
  have hexecute := Index.execute_eq hpins.shown query limit sorting cells
  refine ⟨(segment.top query limit sorting cells).1,
    (((segment.top query limit sorting cells).2, index), other), ?_, hpins, ?_⟩
  · rw [hengine]
    exact congrArg (fun r => (r.1, (r.2, index), other)) hexecute
  · rw [Within, ← hrepresents.size_eq]
    exact Segment.top_lt_size hrepresents query limit sorting cells

include hfits

theorem describe_succeeds (hreserved : s.schema.KeepsReserved) {ids : List DocId}
    (hids : Within docs ids) :
    Step.Succeeds (Holding snapshot segment) (s.describe snapshot ids)
      fun batch => batch.map (·.docId) = ids := by
  induction ids with
  | nil => exact .pure rfl
  | cons id ids ih =>
    obtain ⟨hid, hrest⟩ := List.forall_mem_cons.mp hids
    refine (fetch_succeeds hengine hrepresents hid _).bind ?_
    rintro _ ⟨doc, hdoc, rfl⟩
    obtain ⟨d, hd⟩ := SecurityDescriptor.exists_ofStored (hfits doc hdoc) hreserved id
    rw [hd]
    refine Step.Succeeds.bind (Q := (· = d)) (.ofExcept ⟨d, rfl, rfl⟩) ?_
    rintro _ rfl
    refine (ih hrest).bind fun batch hbatch => .pure ?_
    rw [List.map_cons, (SecurityDescriptor.ofStored_ok hd).1, hbatch]

theorem materializeAll_succeeds (select : PropertySelect) {ids : List DocId}
    (hids : Within docs ids) :
    Step.Succeeds (Holding snapshot segment) (s.materializeAll snapshot select ids)
      fun _ => True := by
  induction ids with
  | nil => exact .pure trivial
  | cons id ids ih =>
    obtain ⟨hid, hrest⟩ := List.forall_mem_cons.mp hids
    refine Step.Succeeds.bind (Q := fun _ => True) ?_ fun record _ =>
      (ih hrest).bind fun _ _ => .pure trivial
    refine (fetch_succeeds hengine hrepresents hid _).bind ?_
    rintro _ ⟨doc, hdoc, rfl⟩
    obtain ⟨record, hrecord⟩ := exists_recordOf (hfits doc hdoc) id select
    exact .ofExcept ⟨record, hrecord, trivial⟩

variable (hreserved : s.schema.KeepsReserved) (hmarks : s.oracle.MarksOnly)
  (hspares : s.oracle.Spares snapshot)

include hreserved hmarks hspares

/-- The oracle authorizes none but those it is asked about. -/
theorem authorize_succeeds {ids : List DocId} (hids : Within docs ids) :
    Step.Succeeds (Holding snapshot segment) (s.authorize token snapshot ids) (Within docs) := by
  rw [authorize]
  cases ids with
  | nil => exact .pure (List.forall_mem_nil _)
  | cons id ids =>
    simp only [List.isEmpty_cons, Bool.false_eq_true, ↓reduceIte]
    refine (describe_succeeds hengine hrepresents hfits hreserved hids).bind fun batch hbatch => ?_
    refine Step.Succeeds.bind (Q := fun answered => answered.map (·.docId) = id :: ids) ?_ ?_
    · intro state hpins
      obtain ⟨answered, hanswered, hdocIds⟩ := hmarks.docIds token batch state
      obtain ⟨operations, hkept, hindex⟩ := hspares token batch state
      have hheld : Holding snapshot segment (s.oracle.authorize token batch state).2 := by
        rw [Holding, hindex]
        exact hpins.run hkept
      exact ⟨answered, _, Prod.ext hanswered rfl, hheld, hdocIds.trans hbatch⟩
    · intro answered hanswered
      refine .pure fun id hid => hids id ?_
      obtain ⟨d, hd, rfl⟩ := List.mem_map.mp hid
      rw [← hanswered]
      exact List.mem_map_of_mem (List.mem_filter.mp hd).1

/-- No round fails, and what the rounds find authorized is in range. -/
theorem widen_succeeds {query : NativeQuery} {limit : Nat} {hpos : 0 < limit} {scanned : Nat}
    {granted : List DocId} {rounds : Nat} (hgranted : Within docs granted) :
    Step.Succeeds (Holding snapshot segment)
      (s.widen token request snapshot query limit hpos scanned granted rounds)
      fun findings => Within docs findings.authorized := by
  induction limit using nextLimit_induction s.config generalizing scanned granted rounds with
  | round limit ih =>
    rw [widen]
    refine (execute_succeeds hengine hrepresents query limit request.sorting).bind
      fun top htop => ?_
    have hnew : Within docs (top.docs.drop scanned) := fun id hid =>
      htop id (List.mem_of_mem_drop hid)
    refine (authorize_succeeds hengine hrepresents hfits hreserved hmarks hspares hnew).bind
      fun newly hnewly => ?_
    have hall : Within docs (granted ++ newly) := List.forall_mem_append.mpr ⟨hgranted, hnewly⟩
    dsimp only
    split
    · exact .pure hall
    · split
      · exact .pure hall
      · next hceiling => exact ih hpos (Nat.lt_of_not_le hceiling) hall

/-- What a search does after the translation of its query. -/
theorem page_succeeds (token : Token) (hneed : 0 < request.need s.config.maxLimit)
    (native : NativeQuery) :
    Step.Succeeds (Holding snapshot segment) (do
        let findings ← s.widen token request snapshot native
          (firstLimit s.config (request.need s.config.maxLimit))
          (firstLimit_pos s.config_isValid hneed) 0 [] 0
        let records ← s.materializeAll snapshot request.select
          (page request.cursor (request.need s.config.maxLimit) findings.authorized)
        return (⟨records, findings.totalHits, findings.rounds, 0⟩ : ResultSet))
      fun _ => True := by
  refine (widen_succeeds hengine hrepresents hfits hreserved hmarks hspares
    (List.forall_mem_nil _)).bind fun findings hfindings => ?_
  have hpage : Within docs
      (page request.cursor (request.need s.config.maxLimit) findings.authorized) := fun id hid =>
    hfindings id (List.mem_of_mem_take (List.mem_of_mem_drop hid))
  exact (materializeAll_succeeds hengine hrepresents hfits request.select hpage).bind
    fun _ _ => .pure trivial

end Rounds

-- ---------------------------------------------------------------------------
-- Searches
-- ---------------------------------------------------------------------------

/-- A search over conforming documents does not fail. Whatever has been added, deleted and
published before, if the accepted documents have values of the types of a schema that keeps the
reserved fields, and the oracle answers, changes only its marks and leaves the snapshot of the
search open, then a search of a query that is translated on this snapshot returns a page. -/
theorem search_succeeds (hengine : s.engine = Index.engine.beside τ)
    (hreserved : s.schema.KeepsReserved) {operations : List Index.Operation}
    (hadds : Index.AddsConforming s.schema operations) {index : Index}
    (hindex : Index.empty.run operations = index) (hmarks : s.oracle.MarksOnly)
    (hspares : s.oracle.Spares index.acquire.1) (token : Token) (request : SearchRequest)
    (cells : FilterCache) (other : τ) {native : NativeQuery}
    (htranslate : (request.query.translate s.schema Index.engine index.acquire.1
      (cells, index.acquire.2)).1 = .ok native) :
    ∃ result state, s.search token request ((cells, index), other) = (.ok result, state) := by
  by_cases hneed : request.need s.config.maxLimit = 0
  · exact ⟨_, _, search_of_need_eq_zero s token hneed _⟩
  · have hpos := Nat.pos_of_ne_zero hneed
    have hall := (Index.empty_fits s.schema).run hadds
    rw [hindex] at hall
    obtain ⟨docs, hrepresents, hfits⟩ := hall.published
    have hacquire : s.engine.acquire ((cells, index), other) =
        (.ok index.acquire.1, (cells, index.acquire.2), other) := by
      rw [hengine]
      rfl
    obtain ⟨hunchanged, -⟩ := Query.translate_unshared _ (Prod.ext htranslate rfl)
    have hquery : request.query.translate s.schema s.engine index.acquire.1
        ((cells, index.acquire.2), other) = (.ok native, (cells, index.acquire.2), other) := by
      rw [← Query.plan_run (s := s),
        Plan.run_beside (t := s.overIndex) (Query.plan_reads _) hengine, Query.plan_run]
      exact Prod.ext htranslate (Prod.ext hunchanged rfl)
    obtain ⟨result, state, hresult, -⟩ := page_succeeds hengine hrepresents hfits hreserved hmarks
      hspares token hpos native ((cells, index.acquire.2), other) index.acquire_pins_current
    have hplan : (s.plan token request index.acquire.1 hpos).run s
        ((cells, index.acquire.2), other) = (.ok result, state) := by
      rw [plan_run]
      exact Step.bind_ok.mpr ⟨native, _, hquery, hresult⟩
    exact ⟨result, _, by rw [search_of_acquire_ok hpos hacquire, hplan]⟩

/-- A schema with a field of dates. -/
def datedSchema : Schema := Schema.initial.addField "made" .date

/-- A document that was made in a leap second and has an acl node. -/
def datedDocument : Document := Document.madeInLeapSecond.addValue Field.aclNodeId (.int32 7)

/-- Two documents are published; one without a uri is refused. -/
def datedHistory : List Index.Operation :=
  [.add ((Document.empty.addValue Field.uri (.text "/b")).addValue "color" (.text "red")),
    .add (Document.empty.addValue "made" (.text "never")), .add datedDocument, .commit]

/-- An oracle that grants what has an acl node, and meanwhile publishes a deletion. -/
def publishing : Oracle ((FilterCache × Index) × Nat) where
  authorize _ batch := fun ((cells, index), calls) =>
    (.ok (batch.map fun d => { d with authorized := d.aclNodeId.isSome }),
      (cells, index.run [.acquire, .delete "/b", .commit]), calls + 1)

def overPublishing : Searcher ((FilterCache × Index) × Nat) :=
  ⟨datedSchema, Index.engine.beside Nat, publishing, narrow, narrow_isValid⟩

/-- The first document that is colored or dated. -/
def datedRequest : SearchRequest :=
  ⟨.disj [.present "color", .present "made"], 1, 0, .documentOrder, .all⟩

theorem publishing_marksOnly : publishing.MarksOnly := by
  rintro token batch ⟨⟨cells, index⟩, calls⟩
  refine ⟨_, rfl, ?_⟩
  rw [List.map_map]
  rfl

theorem publishing_spares (snapshot : SnapshotHandle) : publishing.Spares snapshot := by
  rintro token batch ⟨⟨cells, index⟩, calls⟩
  exact ⟨[.acquire, .delete "/b", .commit], by simp, rfl⟩

theorem datedSchema_keepsReserved : datedSchema.KeepsReserved := by decide

theorem datedHistory_addsConforming : Index.AddsConforming datedSchema datedHistory := by
  intro doc hdoc haccepted
  simp only [datedHistory, List.mem_cons, Index.Operation.add.injEq, reduceCtorEq,
    List.not_mem_nil, or_false] at hdoc
  rcases hdoc with rfl | rfl | rfl
  · decide
  · cases haccepted
  · decide

/-- The second round finds what is granted, while a deletion is published between the rounds. -/
theorem search_succeeds_dated : ∃ result state,
    overPublishing.search ⟨"caller"⟩ datedRequest ((.empty, Index.empty.run datedHistory), 0) =
        (.ok result, state) ∧
      result.uris = ["/a"] ∧ result.rounds = 2 := by
  have htranslate : (datedRequest.query.translate overPublishing.schema Index.engine
      (Index.empty.run datedHistory).acquire.1
      (.empty, (Index.empty.run datedHistory).acquire.2)).1 =
        .ok (.disj [.present "color", .present "made"]) := rfl
  obtain ⟨result, state, h⟩ := search_succeeds (s := overPublishing) rfl datedSchema_keepsReserved
    datedHistory_addsConforming rfl publishing_marksOnly (publishing_spares _) ⟨"caller"⟩
    datedRequest .empty 0 htranslate
  have hfound : (overPublishing.search ⟨"caller"⟩ datedRequest
      ((.empty, Index.empty.run datedHistory), 0)).1.toOption.map
        (fun r => (r.uris, r.rounds)) = some (["/a"], 2) := by
    decide +kernel
  rw [h] at hfound
  obtain ⟨huris, hrounds⟩ := Prod.mk.inj (Option.some.inj hfound)
  exact ⟨result, state, h, huris, hrounds⟩

end Searcher

end GuardedSearch
