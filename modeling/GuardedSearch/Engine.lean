import GuardedSearch.Segment

/-!
# Engines

What a search needs of an index. An engine works on a state of its own, of any kind, and every
call may fail. All reads go through a snapshot, so that they show one state of the index.
-/

namespace GuardedSearch

structure SnapshotHandle where
  id : Nat
deriving DecidableEq, Repr

structure Engine (σ : Type) where
  acquire : StateM σ (Except EngineError SnapshotHandle)
  /-- Of a handle that is not open nothing happens. -/
  release : SnapshotHandle → StateM σ Unit
  /-- The first matches in an order, and the count of all. -/
  execute : SnapshotHandle → NativeQuery → Nat → Sorting → StateM σ (Except EngineError TopDocs)
  fetch : SnapshotHandle → DocId → FieldSelector → StateM σ (Except EngineError StoredFields)
  /-- The first document whose field has exactly this term. -/
  lookup : SnapshotHandle → String → String → StateM σ (Except EngineError (Option DocId))
  /-- The terms of a field that match a wildcard pattern. -/
  enumerate : SnapshotHandle → String → String → StateM σ (Except EngineError (List TermPostings))

/-- A step of a search over an engine's state: it ends with a value or an error, and leaves the
state as the calls made it in either case. -/
abbrev Step (σ : Type) := ExceptT Error (StateM σ)

namespace Step

variable {σ : Type} {α : Type}

def call (answer : StateM σ (Except EngineError α)) : Step σ α :=
  ExceptT.mk do return (← answer).mapError .queryExecution

def ofExcept (r : Except Error α) : Step σ α := ExceptT.mk (pure r)

def ofFormat (r : Except FormatError α) : Step σ α := ofExcept (r.mapError .format)

/-- Holds a snapshot while `body` runs. Whatever the outcome of `body`, the snapshot is released
after it. -/
def withSnapshot (engine : Engine σ) (body : SnapshotHandle → Step σ α) : Step σ α := do
  let snapshot ← call engine.acquire
  ExceptT.mk do
    let outcome ← (body snapshot).run
    engine.release snapshot
    return outcome

end Step

namespace WildcardFilter

variable {σ : Type}

/-- The set of a filter. While its cell is empty the engine is asked for the matching terms; a
failure leaves the cell empty, and the first success fills it for good. -/
def bits (filter : WildcardFilter) (engine : Engine σ) (snapshot : SnapshotHandle) :
    StateM (FilterCache × σ) (Except EngineError DocSet) := fun (cache, state) =>
  match cache.get? filter with
  | some found => (.ok found, cache, state)
  | none =>
    match engine.enumerate snapshot filter.field filter.pattern state with
    | (.error e, state) => (.error e, cache, state)
    | (.ok terms, state) =>
      let (found, cache) := cache.keepFirst filter (DocSet.unionAll (terms.map (·.postings)))
      (.ok found, cache, state)

def described (filter : WildcardFilter) (cache : FilterCache) : String :=
  "WildcardBitsetFilter \x7b field: " ++ Text.quote filter.field ++ ", pattern: " ++
    Text.quote filter.pattern ++ ", computed: " ++
    (if cache.isComputed filter then "true" else "false") ++ " \x7d"

end WildcardFilter

end GuardedSearch
