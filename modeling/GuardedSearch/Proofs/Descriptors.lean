import GuardedSearch.Proofs.Ordinals
import GuardedSearch.Proofs.Releases
import GuardedSearch.Proofs.Snapshots
import GuardedSearch.Proofs.TranslatedQueries

/-!
# Documents put to an oracle

Before the oracle is asked, the descriptors of the documents are read from what is stored of them.
An acl node of any type is accepted and stored, but only an `Int32` is read again. So one document
whose acl node is something else ends the authorization of every batch that has it, and no other
does (`authorize_asks_iff`).
-/

namespace GuardedSearch

variable {τ : Type}

-- ---------------------------------------------------------------------------
-- Documents
-- ---------------------------------------------------------------------------

namespace Document

/-- The owner of a document, if its first owner is a text. -/
def owner? (doc : Document) : Option String :=
  match doc.field? Field.owner with
  | some (.text owner) => some owner
  | _ => none

/-- The first acl node of a document is an `Int32`, if there is one. -/
def HasReadableNode (doc : Document) : Prop :=
  ∀ v, doc.field? Field.aclNodeId = some v → v.fieldType = .int32

end Document

namespace Segment

variable {doc : Document} {selector : FieldSelector}

/-- What is fetched of a document. -/
def fetchedOf (doc : Document) (selector : FieldSelector) : StoredFields :=
  (storedOf doc).filterKeys selector.admits

theorem head?_fetchedOf (doc : Document) {name : String} (h : selector.admits name = true) :
    ((fetchedOf doc selector).get? name).bind (·.head?) =
      (doc.field? name).map FieldValue.stored := by
  rw [fetchedOf, Table.get?_filterKeys, if_pos h, head?_storedOf]

end Segment

-- ---------------------------------------------------------------------------
-- Descriptors
-- ---------------------------------------------------------------------------

namespace SecurityDescriptor

/-- How an acl node is read from its stored form. -/
def nodeOf (id : DocId) : FieldValue → Except FormatError Int32
  | .int32 n => .ok n
  | .text _ => .error (.textAclNode id)
  | .boolean _ => .error (.int32Width 1)
  | .int64 _ | .date _ => .error (.int32Width 8)

/-- The descriptor of a document, from its own values. -/
def ofDocument (id : DocId) (doc : Document) : Except FormatError SecurityDescriptor :=
  match Index.uriOf? doc with
  | none => .error (.noStoredUri id)
  | some uri => do
    let node ← (doc.field? Field.aclNodeId).mapM (nodeOf id)
    return ⟨id, uri, doc.owner?, node, false⟩

variable {id : DocId} {doc : Document}

/-- The bytes that are stored of a value are read as its acl node. -/
theorem toInt32_stored (id : DocId) {v : FieldValue} {bytes : List UInt8}
    (h : v.stored = .binary bytes) : Bytes.toInt32 bytes = nodeOf id v := by
  cases v with
  | text s => cases h
  | int32 n =>
    cases h
    exact Bytes.toInt32_ofInt32 n
  | boolean b =>
    cases h
    rfl
  | int64 n | date t =>
    cases h
    simp [Bytes.toInt32, Bytes.ofInstant, Bytes.ofInt64, Bytes.length_bigEndian, nodeOf]

/-- What is read of a stored document is the descriptor of the document. -/
theorem ofStored_fetchedOf (id : DocId) (doc : Document) :
    ofStored id (Segment.fetchedOf doc selector) = ofDocument id doc := by
  have hread {name} (hname : selector.admits name = true) :=
    Segment.head?_fetchedOf doc hname
  simp only [ofStored, ofDocument, hread (show selector.admits Field.uri = true by decide),
    hread (show selector.admits Field.owner = true by decide),
    hread (show selector.admits Field.aclNodeId = true by decide), Index.uriOf?, Document.owner?]
  cases doc.field? Field.uri with
  | none => rfl
  | some first =>
    cases first with
    | text uri =>
      dsimp only [Option.map_some, FieldValue.stored]
      cases doc.field? Field.aclNodeId with
      | none =>
        cases doc.field? Field.owner with
        | none => rfl
        | some owner => cases owner <;> rfl
      | some node =>
        cases hstored : node.stored with
        | text s =>
          cases node with
          | text s => rfl
          | _ => cases hstored
        | binary bytes =>
          rw [Option.map_some, hstored, Option.mapM_some]
          dsimp only
          rw [toInt32_stored id hstored]
          cases nodeOf id node with
          | error e => rfl
          | ok n =>
            cases doc.field? Field.owner with
            | none => rfl
            | some owner => cases owner <;> rfl
    | _ => rfl

theorem exists_ofDocument_iff (id : DocId) (huri : (Index.uriOf? doc).isSome) :
    (∃ d, ofDocument id doc = .ok d) ↔ doc.HasReadableNode := by
  obtain ⟨uri, huri⟩ := Option.isSome_iff_exists.mp huri
  simp only [ofDocument, huri, Outcome.bind_ok, Outcome.pure_ok, Document.HasReadableNode]
  cases doc.field? Field.aclNodeId with
  | none => simp [pure, Except.pure]
  | some v => cases v <;> simp [nodeOf, FieldValue.fieldType]

/-- These are documents of an index, each with its ordinal. -/
def Places (docs : List Document) (listed : List (DocId × Document)) : Prop :=
  ∀ e ∈ listed, docs[e.1.ordinal]? = some e.2

/-- Descriptors of documents, up to the first that has none. -/
def ofDocuments (listed : List (DocId × Document)) : Except FormatError (List SecurityDescriptor) :=
  listed.mapM fun e => ofDocument e.1 e.2

theorem ofDocuments_cons (e : DocId × Document) (listed : List (DocId × Document)) :
    ofDocuments (e :: listed) = do
      let d ← ofDocument e.1 e.2
      let others ← ofDocuments listed
      return d :: others :=
  List.mapM_cons

theorem exists_ofDocuments_iff {listed : List (DocId × Document)}
    (huri : ∀ e ∈ listed, (Index.uriOf? e.2).isSome) :
    (∃ batch, ofDocuments listed = .ok batch) ↔ ∀ e ∈ listed, e.2.HasReadableNode := by
  constructor
  · rintro ⟨batch, hbatch⟩ e he
    exact (exists_ofDocument_iff e.1 (huri e he)).mp (Outcome.ok_of_mapM_ok hbatch he)
  · intro hall
    exact Outcome.exists_mapM_ok fun e he =>
      (exists_ofDocument_iff e.1 (huri e he)).mpr (hall e he)

end SecurityDescriptor

-- ---------------------------------------------------------------------------
-- Batches
-- ---------------------------------------------------------------------------

namespace Searcher

open SecurityDescriptor (Places ofDocuments)

/-- What the oracle grants of a batch. -/
def ask {σ : Type} (s : Searcher σ) (token : Token) (batch : List SecurityDescriptor) :
    Step σ (List DocId) := do
  let answered ← ExceptT.mk (s.oracle.authorize token batch)
  return (answered.filter (·.authorized)).map (·.docId)

theorem authorize_eq {σ : Type} (s : Searcher σ) (token : Token) (snapshot : SnapshotHandle)
    {ids : List DocId} (h : ids ≠ []) :
    s.authorize token snapshot ids = s.describe snapshot ids >>= s.ask token := by
  rw [authorize, if_neg (by simpa using h)]
  rfl

variable {s : Searcher ((FilterCache × Index) × τ)} {snapshot : SnapshotHandle} {segment : Segment}
  {index : Index} {docs : List Document} {listed : List (DocId × Document)}

section Described

variable (hengine : s.engine = Index.engine.beside τ)
  (hshown : index.segment? snapshot = .ok segment) (hrepresents : segment.Represents docs)

include hengine hshown hrepresents

theorem call_fetch_run {id : DocId} {doc : Document} (hdoc : docs[id.ordinal]? = some doc)
    (selector : FieldSelector) (cells : FilterCache) (other : τ) :
    Step.call (s.engine.fetch snapshot id selector) ((cells, index), other) =
      (.ok (Segment.fetchedOf doc selector), (cells, index), other) := by
  have hfetch : index.fetch snapshot id selector = .ok (Segment.fetchedOf doc selector) := by
    rw [Index.fetch, hshown]
    exact Segment.fetch_eq hrepresents hdoc selector
  rw [Step.call_ok, hengine, ← hfetch]
  rfl

/-- The documents are described in their order, up to the first that cannot be. -/
theorem describe_run (hlisted : Places docs listed) (cells : FilterCache) (other : τ) :
    s.describe snapshot (listed.map (·.1)) ((cells, index), other) =
      ((ofDocuments listed).mapError .format, (cells, index), other) := by
  induction listed with
  | nil => rfl
  | cons e listed ih =>
    obtain ⟨hdoc, hrest⟩ := List.forall_mem_cons.mp hlisted
    rw [List.map_cons, describe, Step.bind_run,
      call_fetch_run hengine hshown hrepresents hdoc, SecurityDescriptor.ofDocuments_cons]
    dsimp only
    rw [SecurityDescriptor.ofStored_fetchedOf, Step.bind_run]
    cases SecurityDescriptor.ofDocument e.1 e.2 with
    | error cause => rfl
    | ok d =>
      change (s.describe snapshot (listed.map (·.1)) >>= _) _ = _
      rw [Step.bind_run, ih hrest]
      cases ofDocuments listed <;> rfl

end Described

/-- What an execution lists are documents of the segment. -/
theorem exists_places (hshown : index.segment? snapshot = .ok segment)
    (hrepresents : segment.Represents docs) {native : NativeQuery} {limit : Nat}
    {sorting : Sorting} {cells cells' : FilterCache} {top : TopDocs}
    (h : index.execute snapshot native limit sorting cells = (.ok top, cells')) :
    ∃ listed, Places docs listed ∧ top.docs = listed.map (·.1) := by
  rw [Index.execute_eq hshown] at h
  obtain ⟨htop, -⟩ := Prod.mk.inj h
  obtain rfl := Except.ok.inj htop
  have hrange := Segment.top_lt_size hrepresents native limit sorting cells
  rw [hrepresents.size_eq] at hrange
  generalize (segment.top native limit sorting cells).1.docs = ids at hrange
  induction ids with
  | nil => exact ⟨[], List.forall_mem_nil _, rfl⟩
  | cons id ids ih =>
    obtain ⟨hid, hrest⟩ := List.forall_mem_cons.mp hrange
    obtain ⟨listed, hlisted, rfl⟩ := ih hrest
    exact ⟨(id, docs[id.ordinal]) :: listed,
      List.forall_mem_cons.mpr ⟨List.getElem?_eq_getElem hid, hlisted⟩, rfl⟩

/-- A published document is described by its own first values, and it can be described just when
its first acl node is an `Int32`, or it has none. A batch is put to the oracle just when all its
documents can be described; otherwise its authorization ends before the oracle is asked. What an
execution lists, and so what a round authorizes, are published documents. -/
theorem authorize_asks_iff (hengine : s.engine = Index.engine.beside τ)
    {operations later : List Index.Operation} {opened : Index}
    (hrun : Index.empty.run operations = index) (hacquire : index.acquire = (snapshot, opened))
    (hopen : .release snapshot ∉ later) (hdocs : Index.empty.published [] operations = docs)
    (token : Token) (cells : FilterCache) (other : τ) :
    (∀ i doc, docs[i]? = some doc → ∃ stored,
      (opened.run later).fetch snapshot ⟨i⟩ SecurityDescriptor.selector = .ok stored ∧
        SecurityDescriptor.ofStored ⟨i⟩ stored = SecurityDescriptor.ofDocument ⟨i⟩ doc ∧
        ((∃ d, SecurityDescriptor.ofStored ⟨i⟩ stored = .ok d) ↔ doc.HasReadableNode)) ∧
      (∀ listed, listed ≠ [] → Places docs listed →
        ((∀ e ∈ listed, e.2.HasReadableNode) → ∃ batch, ofDocuments listed = .ok batch ∧
          s.authorize token snapshot (listed.map (·.1)) ((cells, opened.run later), other) =
            s.ask token batch ((cells, opened.run later), other)) ∧
        (¬ (∀ e ∈ listed, e.2.HasReadableNode) → ∃ cause,
          s.describe snapshot (listed.map (·.1)) ((cells, opened.run later), other) =
              (.error (.format cause), (cells, opened.run later), other) ∧
            s.authorize token snapshot (listed.map (·.1)) ((cells, opened.run later), other) =
              (.error (.format cause), (cells, opened.run later), other))) ∧
      ∀ native limit sorting top cells',
        (opened.run later).execute snapshot native limit sorting cells = (.ok top, cells') →
          ∃ listed, Places docs listed ∧ top.docs = listed.map (·.1) := by
  subst hrun hdocs
  obtain ⟨segment, hshown, hrepresents, haccepted⟩ := Index.acquire_shows_published hacquire hopen
  have huri {doc} (hdoc : doc ∈ Index.empty.published [] operations) :
      (Index.uriOf? doc).isSome := (Index.fault?_eq_none_iff.mp (haccepted doc hdoc)).1
  refine ⟨fun i doc hdoc => ?_, fun listed hnonempty hlisted => ?_, fun _ _ _ _ _ h =>
    exists_places hshown hrepresents h⟩
  · have hsame := SecurityDescriptor.ofStored_fetchedOf ⟨i⟩ doc
    refine ⟨Segment.fetchedOf doc SecurityDescriptor.selector, ?_, hsame, ?_⟩
    · rw [Index.fetch, hshown]
      exact Segment.fetch_eq hrepresents hdoc _
    · rw [hsame]
      exact SecurityDescriptor.exists_ofDocument_iff _ (huri (List.mem_of_getElem? hdoc))
  · have hdescribed := describe_run hengine hshown hrepresents hlisted cells other
    have hbatch := SecurityDescriptor.exists_ofDocuments_iff fun e he =>
      huri (List.mem_of_getElem? (hlisted e he))
    rw [authorize_eq s token snapshot (by simpa using hnonempty), Step.bind_run, hdescribed,
      ← hbatch]
    cases ofDocuments listed with
    | ok batch => exact ⟨fun _ => ⟨batch, rfl, rfl⟩, fun h => absurd ⟨batch, rfl⟩ h⟩
    | error cause =>
      refine ⟨?_, fun _ => ⟨cause, rfl, rfl⟩⟩
      rintro ⟨batch, h⟩
      cases h

/-- A document whose acl node is a text. -/
def staffOnly : Document :=
  (Document.empty.addValue Field.uri (.text "/a")).addValue Field.aclNodeId (.text "staff")

/-- A document whose acl node is a number. -/
def numbered : Document :=
  (Document.empty.addValue Field.uri (.text "/b")).addValue Field.aclNodeId (.int32 7)

/-- Both are published. -/
def withStaffOnly : List Index.Operation := [.add staffOnly, .add numbered, .commit]

/-- An oracle that counts its calls and grants everything. -/
def granting : Oracle ((FilterCache × Index) × Nat) where
  authorize _ batch := fun (state, calls) =>
    (.ok (batch.map fun d => { d with authorized := true }), state, calls + 1)

def overGranting : Searcher ((FilterCache × Index) × Nat) :=
  ⟨.initial, Index.engine.beside Nat, granting, narrow, narrow_isValid⟩

/-- The second document is granted, and with the first in its batch the oracle is not asked. -/
theorem authorize_asks_iff_staffOnly : ∃ opened cause,
    (Index.empty.run withStaffOnly).acquire = (⟨1⟩, opened) ∧
      overGranting.authorize ⟨"caller"⟩ ⟨1⟩ [⟨1⟩]
          ((.empty, opened.run [.delete "/b", .commit]), 0) =
        (.ok [⟨1⟩], (.empty, opened.run [.delete "/b", .commit]), 1) ∧
      overGranting.authorize ⟨"caller"⟩ ⟨1⟩ [⟨0⟩, ⟨1⟩]
          ((.empty, opened.run [.delete "/b", .commit]), 0) =
        (.error (.format cause), (.empty, opened.run [.delete "/b", .commit]), 0) := by
  have hacquire : (Index.empty.run withStaffOnly).acquire =
      (⟨1⟩, (Index.empty.run withStaffOnly).acquire.2) := rfl
  obtain ⟨-, hbatches, -⟩ := @authorize_asks_iff _ overGranting _ _ _ rfl withStaffOnly
    [.delete "/b", .commit] _ rfl hacquire (by decide) rfl ⟨"caller"⟩ .empty 0
  obtain ⟨hasked, -⟩ := hbatches [(⟨1⟩, numbered)] (by simp) fun e he => by
    obtain rfl := List.mem_singleton.mp he
    rfl
  obtain ⟨-, hfailed⟩ := hbatches [(⟨0⟩, staffOnly), (⟨1⟩, numbered)] (by simp)
    (List.forall_mem_cons.mpr ⟨rfl, List.forall_mem_cons.mpr ⟨rfl, List.forall_mem_nil _⟩⟩)
  obtain ⟨batch, hbatch, hgranted⟩ := hasked fun e he v hv => by
    obtain rfl := List.mem_singleton.mp he
    cases hv
    rfl
  obtain ⟨cause, -, hcause⟩ := hfailed fun hall => by
    cases hall _ (List.mem_cons_self ..) _ rfl
  cases hbatch
  exact ⟨_, cause, hacquire, hgranted, hcause⟩

/-- A document whose acl node is a text is accepted and published, but its descriptor cannot be
read, and a search that finds it fails before the oracle is asked. -/
theorem exists_published_without_descriptor : ∃ doc index opened stored,
    Index.empty.add doc = .ok index ∧ index.commit.1 = .ok 1 ∧
      index.commit.2.acquire = (⟨1⟩, opened) ∧
      opened.fetch ⟨1⟩ ⟨0⟩ SecurityDescriptor.selector = .ok stored ∧
      SecurityDescriptor.ofStored ⟨0⟩ stored = .error (.textAclNode ⟨0⟩) ∧
      failureOf id (overGranting.search ⟨"caller"⟩ firstResource ((.empty, index.commit.2), 0)).1 =
        some (.format (.textAclNode ⟨0⟩)) ∧
      (overGranting.search ⟨"caller"⟩ firstResource ((.empty, index.commit.2), 0)).2.2 = 0 := by
  refine ⟨staffOnly, _, _, _, rfl, rfl, rfl, rfl, rfl, ?_, ?_⟩
  · decide +kernel
  · decide +kernel

end Searcher

end GuardedSearch
