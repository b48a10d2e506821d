import GuardedSearch.Engine

/-!
# The index in memory

Documents are staged by uri and published by a commit, which builds a new segment. A snapshot
pins the segment that is current when it is acquired, so readers keep a consistent view while
later commits publish others.
-/

namespace GuardedSearch

structure Index where
  staged : List Document
  current : Segment
  /-- The segment of each open snapshot. -/
  pinned : List (Nat × Segment)
  /-- How many snapshots have been acquired; their handles count from one. -/
  acquired : Nat
  /-- How many commits have been begun. -/
  commits : Nat

namespace Index

def empty : Index := ⟨[], .initial, [], 0, 0⟩

def uriOf? (doc : Document) : Option String :=
  match doc.field? Field.uri with
  | some (.text uri) => some uri
  | _ => none

def isResourceId : FieldValue → Bool
  | .int32 n => 0 ≤ n.toInt
  | _ => false

/-- Why a document is refused: it needs a text uri, resource numbers that are not negative, and
an index term for every value. -/
def fault? (doc : Document) : Option Error :=
  let badId (name : String) : Option Error :=
    ((doc.valuesOf name).find? fun v => !isResourceId v).map fun v =>
      .invalidArgument (.notResourceId name v)
  let badTerm : Option Error :=
    doc.fields.values.flatten.findSome? fun v =>
      match v.term with
      | .ok _ => none
      | .error cause => some (.format cause)
  if (uriOf? doc).isNone then some (.invalidArgument .noTextUri)
  else badId Field.id <|> badId Field.ancestorIds <|> badTerm

/-- Puts a document in the place of the first with the same uri, or at the end. -/
def stage (doc : Document) : List Document → List Document
  | [] => [doc]
  | d :: rest => if uriOf? d = uriOf? doc then doc :: rest else d :: stage doc rest

/-- Stages a document; one with the same uri is replaced in its place. -/
def add (index : Index) (doc : Document) : Except Error Index :=
  match fault? doc with
  | some e => .error e
  | none => .ok { index with staged := stage doc index.staged }

/-- Removes the document with this uri; the answer tells whether there was one. -/
def delete (index : Index) (uri : String) : Bool × Index :=
  let kept := index.staged.filter fun d => uriOf? d ≠ some uri
  (kept.length ≠ index.staged.length, { index with staged := kept })

/-- Publishes the staged documents as a new segment. The commit has a version even if it fails. -/
def commit (index : Index) : Except Error Nat × Index :=
  let version := index.commits + 1
  let index := { index with commits := version }
  match Segment.build version index.staged with
  | .ok segment => (.ok version, { index with current := segment })
  | .error e => (.error (.queryExecution e), index)

def ofDocuments (docs : List Document) : Except Error Index := do
  let staged ← docs.foldlM add empty
  match staged.commit with
  | (.ok _, index) => .ok index
  | (.error e, _) => .error e

/-- The version of the segment published last; zero before the first commit. -/
def version (index : Index) : Nat := index.current.version

def docCount (index : Index) : Nat := index.current.docs.size

def openSnapshots (index : Index) : Nat := index.pinned.length

def acquire (index : Index) : SnapshotHandle × Index :=
  let id := index.acquired + 1
  (⟨id⟩, { index with pinned := (id, index.current) :: index.pinned, acquired := id })

def release (index : Index) (snapshot : SnapshotHandle) : Index :=
  { index with pinned := index.pinned.filter fun e => e.1 ≠ snapshot.id }

def segment? (index : Index) (snapshot : SnapshotHandle) : Except EngineError Segment :=
  match index.pinned.lookup snapshot.id with
  | some segment => .ok segment
  | none => .error (.unknownSnapshot snapshot.id)

def execute (index : Index) (snapshot : SnapshotHandle) (query : NativeQuery) (limit : Nat)
    (sorting : Sorting) : StateM FilterCache (Except EngineError TopDocs) :=
  match index.segment? snapshot with
  | .error e => return .error e
  | .ok segment => do return .ok (← segment.top query limit sorting)

def fetch (index : Index) (snapshot : SnapshotHandle) (doc : DocId) (selector : FieldSelector) :
    Except EngineError StoredFields := do
  (← index.segment? snapshot).fetch doc selector

def lookup (index : Index) (snapshot : SnapshotHandle) (field term : String) :
    Except EngineError (Option DocId) := do
  return ((← index.segment? snapshot).withTerm field term).first?.map DocId.mk

def enumerate (index : Index) (snapshot : SnapshotHandle) (field pattern : String) :
    Except EngineError (List TermPostings) := do
  return ((← index.segment? snapshot).termsMatching field pattern).map fun e => ⟨e.1, e.2⟩

/-- The index as an engine. Its state has the cells of the shared filters beside the index. -/
def engine : Engine (FilterCache × Index) where
  acquire := fun (cache, index) =>
    let (snapshot, index) := index.acquire
    (.ok snapshot, cache, index)
  release snapshot := fun (cache, index) => ((), cache, index.release snapshot)
  execute snapshot query limit sorting := fun (cache, index) =>
    let (answer, cache) := index.execute snapshot query limit sorting cache
    (answer, cache, index)
  fetch snapshot doc selector := fun (cache, index) =>
    (index.fetch snapshot doc selector, cache, index)
  lookup snapshot field term := fun (cache, index) =>
    (index.lookup snapshot field term, cache, index)
  enumerate snapshot field pattern := fun (cache, index) =>
    (index.enumerate snapshot field pattern, cache, index)

end Index

end GuardedSearch
