import GuardedSearch.Search

/-!
# Recorded calls

A log of the calls that a search makes, each with its answer, in the order in which they are
made. Recording changes no answer.
-/

namespace GuardedSearch

inductive Event where
  | acquire (answer : Except EngineError SnapshotHandle)
  | release (snapshot : SnapshotHandle)
  | execute (snapshot : SnapshotHandle) (query : NativeQuery) (limit : Nat) (sorting : Sorting)
      (answer : Except EngineError TopDocs)
  | fetch (snapshot : SnapshotHandle) (doc : DocId) (selector : FieldSelector)
      (answer : Except EngineError StoredFields)
  | lookup (snapshot : SnapshotHandle) (field term : String)
      (answer : Except EngineError (Option DocId))
  | enumerate (snapshot : SnapshotHandle) (field pattern : String)
      (answer : Except EngineError (List TermPostings))
  | authorize (token : Token) (batch : List SecurityDescriptor)
      (answer : Except Error (List SecurityDescriptor))

def recorded {σ α : Type} (event : α → Event) (call : StateM σ α) : StateM (List Event × σ) α :=
  fun (log, state) =>
    let (answer, state) := call state
    (answer, log ++ [event answer], state)

def Engine.recorded {σ : Type} (engine : Engine σ) : Engine (List Event × σ) where
  acquire := GuardedSearch.recorded .acquire engine.acquire
  release snapshot := GuardedSearch.recorded (fun _ => .release snapshot) (engine.release snapshot)
  execute snapshot query limit sorting :=
    GuardedSearch.recorded (.execute snapshot query limit sorting)
      (engine.execute snapshot query limit sorting)
  fetch snapshot doc selector :=
    GuardedSearch.recorded (.fetch snapshot doc selector) (engine.fetch snapshot doc selector)
  lookup snapshot field term :=
    GuardedSearch.recorded (.lookup snapshot field term) (engine.lookup snapshot field term)
  enumerate snapshot field pattern :=
    GuardedSearch.recorded (.enumerate snapshot field pattern)
      (engine.enumerate snapshot field pattern)

def Oracle.recorded {σ : Type} (oracle : Oracle σ) : Oracle (List Event × σ) where
  authorize token batch :=
    GuardedSearch.recorded (.authorize token batch) (oracle.authorize token batch)

def Searcher.recorded {σ : Type} (s : Searcher σ) : Searcher (List Event × σ) :=
  { s with engine := s.engine.recorded, oracle := s.oracle.recorded }

namespace Event

def limit? : Event → Option Nat
  | execute _ _ limit _ _ => some limit
  | _ => none

def batch? : Event → Option (List SecurityDescriptor)
  | authorize _ batch _ => some batch
  | _ => none

def isFetch : Event → Bool
  | fetch .. => true
  | _ => false

end Event

def limitsOf (log : List Event) : List Nat := log.filterMap Event.limit?

def batchesOf (log : List Event) : List (List SecurityDescriptor) := log.filterMap Event.batch?

end GuardedSearch
