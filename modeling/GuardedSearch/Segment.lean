import GuardedSearch.Glob
import GuardedSearch.NativeQuery
import GuardedSearch.Query
import GuardedSearch.Schema
import GuardedSearch.Stored
import GuardedSearch.Term

/-!
# Segments

An immutable, searchable view of committed documents: for each field a dictionary of its
terms in ascending order, each with the set of documents that have it, and for each document
its stored values and the terms to sort it by.
-/

namespace GuardedSearch

inductive FieldSelector where
  | all
  | only (names : NameSet)
deriving DecidableEq

namespace FieldSelector

def ofNames (names : List String) : FieldSelector := only (NameSet.ofNames names)

def admits : FieldSelector → String → Bool
  | all, _ => true
  | only names, name => names.contains name

end FieldSelector

/-- Documents in ranking order, and how many there are without the limit. -/
structure TopDocs where
  docs : List DocId
  totalHits : Nat
deriving DecidableEq

structure TermPostings where
  term : String
  postings : DocSet
deriving DecidableEq

structure FieldIndex where
  terms : Table DocSet
  /-- The documents with a value in this field. -/
  present : DocSet
deriving DecidableEq

namespace FieldIndex

def empty : FieldIndex := ⟨∅, ∅⟩

/-- Enters the terms of one document's values. -/
def addTerms (index : FieldIndex) (ordinal : Nat) (terms : List String) : FieldIndex where
  terms := terms.foldl (fun t term => t.update term fun s => (s.getD ∅).insert ordinal) index.terms
  present := if terms.isEmpty then index.present else index.present.insert ordinal

def entriesFrom (index : FieldIndex) (start : String) : List (String × DocSet) :=
  index.terms.entries.dropWhile fun e => e.1 < start

/-- The entries whose terms begin with `stem`. They stand together in the dictionary, so the
scan begins at `stem` and ends with the first term that does not begin with it. -/
def entriesUnder (index : FieldIndex) (stem : String) : List (String × DocSet) :=
  (index.entriesFrom stem).takeWhile fun e => stem.toList.isPrefixOf e.1.toList

def entriesBetween (index : FieldIndex) (lower upper : Bound) : List (String × DocSet) :=
  (index.terms.entries.dropWhile fun e => !lower.admitsFromBelow e.1).takeWhile fun e =>
    upper.admitsFromAbove e.1

def entriesMatching (index : FieldIndex) (pattern : String) : List (String × DocSet) :=
  (index.entriesUnder (Glob.literalStart pattern)).filter fun e => Glob.isMatch pattern e.1

end FieldIndex

/-- What a segment keeps of one document. -/
structure SegmentDoc where
  stored : StoredFields
  /-- For each field with a value, the term of its first. -/
  sortKeys : Table String
deriving DecidableEq

structure Segment where
  version : Nat
  docs : Array SegmentDoc
  fields : Table FieldIndex
  live : DocSet
deriving DecidableEq

namespace Segment

/-- The segment of an index that has published nothing. -/
def initial : Segment := ⟨0, #[], ∅, ∅⟩

def termsOf (doc : Document) : Except FormatError (List (String × List String)) :=
  doc.fields.entries.mapM fun e => do return (e.1, ← e.2.mapM FieldValue.term)

/-- The stored values of a document; a field without values is not stored. -/
def storedOf (doc : Document) : StoredFields :=
  Table.map (·.map FieldValue.stored)
    ⟨doc.fields.entries.filter fun e => !e.2.isEmpty, doc.fields.sorted.filter _⟩

def add (s : Segment) (doc : Document) : Except EngineError Segment :=
  let ordinal := s.docs.size
  if Word.size32 ≤ ordinal then .error .tooManyDocuments
  else match termsOf doc with
    | .error cause => .error (.unindexable cause)
    | .ok fieldTerms =>
      .ok { s with
        docs := s.docs.push
          { stored := storedOf doc
            sortKeys := Table.ofList (fieldTerms.filterMap fun e => e.2.head?.map (e.1, ·)) }
        fields := fieldTerms.foldl (fun fields e =>
          fields.update e.1 fun index => (index.getD .empty).addTerms ordinal e.2) s.fields
        live := s.live.insert ordinal }

def build (version : Nat) (docs : List Document) : Except EngineError Segment :=
  docs.foldlM add { initial with version := version }

def postingsOf (entries : List (String × DocSet)) : DocSet :=
  DocSet.unionAll (entries.map (·.2))

def index? (s : Segment) (field : String) : Option FieldIndex := s.fields.get? field

def withTerm (s : Segment) (field term : String) : DocSet :=
  ((s.index? field).bind (·.terms.get? term)).getD ∅

def termsUnder (s : Segment) (field stem : String) : List (String × DocSet) :=
  ((s.index? field).map (·.entriesUnder stem)).getD []

def termsBetween (s : Segment) (field : String) (lower upper : Bound) : List (String × DocSet) :=
  ((s.index? field).map (·.entriesBetween lower upper)).getD []

def termsMatching (s : Segment) (field pattern : String) : List (String × DocSet) :=
  ((s.index? field).map (·.entriesMatching pattern)).getD []

def withField (s : Segment) (field : String) : DocSet :=
  ((s.index? field).map (·.present)).getD ∅

mutual

/-- The documents that match a query. Shared filters are looked up in the cache and fill it;
what they found belongs to the segment of the first evaluation, so only the documents of this
segment count. -/
def evaluate (s : Segment) : NativeQuery → StateM FilterCache DocSet
  | .all => return s.live
  | .none => return ∅
  | .term field value => return s.withTerm field value
  | .startsWith field stem => return postingsOf (s.termsUnder field stem)
  | .range field lower upper => return postingsOf (s.termsBetween field lower upper)
  | .present field => return s.withField field
  | .wildcard filter => fun cache =>
    let (found, cache) :=
      cache.keepFirst filter (postingsOf (s.termsMatching filter.field filter.pattern))
    (found ∩ s.live, cache)
  | .bool must should mustNot =>
    if must.isEmpty && should.isEmpty then return ∅
    else do
      let must ← evaluateAll s must
      let should ← evaluateAll s should
      let mustNot ← evaluateAll s mustNot
      let base := match must, should with
        | [], should => DocSet.unionAll should
        | first :: rest, [] => rest.foldl (· ∩ ·) first
        | first :: rest, should => rest.foldl (· ∩ ·) first ∩ DocSet.unionAll should
      return mustNot.foldl (· \ ·) base

def evaluateAll (s : Segment) : List NativeQuery → StateM FilterCache (List DocSet)
  | [] => return []
  | query :: rest => do
    let found ← evaluate s query
    let others ← evaluateAll s rest
    return found :: others

end

/-- The term that a document is sorted by in a field. -/
def sortKey? (s : Segment) (field : String) (ordinal : Nat) : Option String :=
  s.docs[ordinal]?.bind (·.sortKeys.get? field)

/-- The order of two documents by one key. Documents without the key come last, whatever the
direction. -/
def compareBy (s : Segment) (key : SortField) (a b : Nat) : Ordering :=
  match s.sortKey? key.field a, s.sortKey? key.field b with
  | some x, some y =>
    match key.order with
    | .asc => compare x y
    | .desc => compare y x
  | some _, none => .lt
  | none, some _ => .gt
  | none, none => .eq

/-- The ranking order: key by key, and by ordinal where all keys agree. -/
def ranking (s : Segment) (sorting : Sorting) (a b : Nat) : Ordering :=
  (sorting.fields.foldr (fun key next => (s.compareBy key a b).then next) .eq).then (compare a b)

def ranked (s : Segment) (sorting : Sorting) (found : DocSet) : List Nat :=
  if sorting.isDocumentOrder then found.toList
  else found.toList.mergeSort fun a b => (s.ranking sorting a b).isLE

/-- The first `limit` matches in ranking order. -/
def top (s : Segment) (query : NativeQuery) (limit : Nat) (sorting : Sorting) :
    StateM FilterCache TopDocs := do
  let found ← s.evaluate query
  return ⟨((s.ranked sorting found).take limit).map DocId.mk, found.size⟩

def fetch (s : Segment) (doc : DocId) (selector : FieldSelector) :
    Except EngineError StoredFields :=
  match s.docs[doc.ordinal]? with
  | some d => .ok (d.stored.filterKeys selector.admits)
  | none => .error (.noDocument doc s.version)

end Segment

end GuardedSearch
