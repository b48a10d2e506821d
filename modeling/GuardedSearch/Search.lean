import GuardedSearch.Authorization
import GuardedSearch.Request
import GuardedSearch.ResultSet
import GuardedSearch.Translation

/-!
# Guarded search

A search runs its query with a window that grows from round to round. Each round puts the
documents that the rounds before did not return to the oracle, until enough are authorized,
the engine has no more or the window has reached its ceiling. All rounds read one snapshot,
which is released on every path.
-/

namespace GuardedSearch

structure Searcher (σ : Type) where
  schema : Schema
  engine : Engine σ
  oracle : Oracle σ
  config : SearchConfig
  config_isValid : config.IsValid

namespace Searcher

variable {σ : Type}

def ofEngine (schema : Schema) (engine : Engine σ) (oracle : Oracle σ) : Searcher σ :=
  ⟨schema, engine, oracle, .default, SearchConfig.default_isValid⟩

def withConfig (s : Searcher σ) (config : SearchConfig) : Except Error (Searcher σ) :=
  match h : config.fault? with
  | some cause => .error (.config cause)
  | none => .ok { s with config := config, config_isValid := h }

structure Findings where
  authorized : List DocId
  totalHits : Nat
  rounds : Nat
deriving DecidableEq

def nextLimit (config : SearchConfig) (limit : Nat) : Nat :=
  min config.ceiling (max (2 * limit) config.minUpscale)

theorem lt_nextLimit {config : SearchConfig} {limit : Nat} (hpos : 0 < limit)
    (h : limit < config.ceiling) : limit < nextLimit config limit := by
  unfold nextLimit
  omega

/-- Every round but the last hands on to one with a larger window, up to the ceiling. -/
theorem nextLimit_induction (config : SearchConfig) {motive : Nat → Prop}
    (round : ∀ limit, (0 < limit → limit < config.ceiling → motive (nextLimit config limit)) →
      motive limit) (limit : Nat) : motive limit := by
  induction hmeasure : config.ceiling - limit using Nat.strongRecOn generalizing limit with
  | ind measure ih =>
    apply round
    intro hpos hlimit
    have hgrows := lt_nextLimit hpos hlimit
    exact ih _ (by omega) _ rfl

def describe (s : Searcher σ) (snapshot : SnapshotHandle) :
    List DocId → Step σ (List SecurityDescriptor)
  | [] => return []
  | doc :: rest => do
    let stored ← Step.call (s.engine.fetch snapshot doc SecurityDescriptor.selector)
    let descriptor ← Step.ofFormat (SecurityDescriptor.ofStored doc stored)
    let others ← s.describe snapshot rest
    return descriptor :: others

/-- The documents that the oracle authorizes, in their order. It is not asked about nothing. -/
def authorize (s : Searcher σ) (token : Token) (snapshot : SnapshotHandle)
    (docs : List DocId) : Step σ (List DocId) := do
  if docs.isEmpty then return []
  let batch ← s.describe snapshot docs
  let answered ← ExceptT.mk (s.oracle.authorize token batch)
  return (answered.filter (·.authorized)).map (·.docId)

/-- The rounds of a search from the window `limit` on, after `scanned` documents have been put
to the oracle and `granted` been authorized. -/
def widen (s : Searcher σ) (token : Token) (request : SearchRequest) (snapshot : SnapshotHandle)
    (query : NativeQuery) (limit : Nat) (hpos : 0 < limit) (scanned : Nat)
    (granted : List DocId) (rounds : Nat) : Step σ Findings := do
  let top ← Step.call (s.engine.execute snapshot query limit request.sorting)
  let newly ← s.authorize token snapshot (top.docs.drop scanned)
  let granted := granted ++ newly
  if request.need s.config.maxLimit ≤ granted.length ∨ top.totalHits = top.docs.length then
    return ⟨granted, top.totalHits, rounds + 1⟩
  else if h : s.config.ceiling ≤ limit then
    return ⟨granted, top.totalHits, rounds + 1⟩
  else
    s.widen token request snapshot query (nextLimit s.config limit)
      (Nat.lt_trans hpos (lt_nextLimit hpos (Nat.lt_of_not_le h))) top.docs.length granted
      (rounds + 1)
termination_by s.config.ceiling - limit
decreasing_by
  have := lt_nextLimit hpos (Nat.lt_of_not_le h)
  omega

def recordSelector : PropertySelect → FieldSelector
  | .all => .all
  | .none => .ofNames [Field.uri]
  | .named names => .only (names.insert Field.uri ())

/-- The record of stored fields: every field decoded as its declared type, the uri apart. -/
def recordOf (schema : Schema) (doc : DocId) (stored : StoredFields) :
    Except Error ResultRecord := do
  let decoded : List (String × List FieldValue) ← stored.entries.mapM fun e => do
    return (e.1, ← e.2.mapM (StoredValue.decode (schema.typeOf e.1)))
  match (decoded.lookup Field.uri).bind (·.head?) with
  | some (.text uri) =>
    return ⟨doc, uri, Table.ofList (decoded.filter fun e => e.1 ≠ Field.uri)⟩
  | _ => .error (.format (.noStoredUri doc))

def materialize (s : Searcher σ) (snapshot : SnapshotHandle) (select : PropertySelect)
    (doc : DocId) : Step σ ResultRecord := do
  let stored ← Step.call (s.engine.fetch snapshot doc (recordSelector select))
  Step.ofExcept (recordOf s.schema doc stored)

def materializeAll (s : Searcher σ) (snapshot : SnapshotHandle) (select : PropertySelect) :
    List DocId → Step σ (List ResultRecord)
  | [] => return []
  | doc :: rest => do
    let record ← s.materialize snapshot select doc
    let others ← s.materializeAll snapshot select rest
    return record :: others

def page (cursor need : Nat) (authorized : List DocId) : List DocId :=
  (authorized.take need).drop cursor

def firstLimit (config : SearchConfig) (need : Nat) : Nat := min config.ceiling need

theorem firstLimit_pos {config : SearchConfig} (h : config.IsValid) {need : Nat}
    (hneed : 0 < need) : 0 < firstLimit config need :=
  Nat.lt_min.2 ⟨(SearchConfig.isValid_iff.1 h).1, hneed⟩

/-- One page of results for a caller. A page of no documents needs no snapshot. The time is
left to whoever runs the search. -/
def search (s : Searcher σ) (token : Token) (request : SearchRequest) : Step σ ResultSet :=
  let need := request.need s.config.maxLimit
  if hneed : need = 0 then return .empty
  else Step.withSnapshot s.engine fun snapshot => do
    let query ← request.query.translate s.schema s.engine snapshot
    let findings ← s.widen token request snapshot query (firstLimit s.config need)
      (firstLimit_pos s.config_isValid (Nat.pos_of_ne_zero hneed)) 0 [] 0
    let records ← s.materializeAll snapshot request.select
      (page request.cursor need findings.authorized)
    return ⟨records, findings.totalHits, findings.rounds, 0⟩

/-- A page of no documents needs nothing. -/
theorem search_of_need_eq_zero (s : Searcher σ) (token : Token) {request : SearchRequest}
    (h : request.need s.config.maxLimit = 0) (state : σ) :
    s.search token request state = (.ok .empty, state) := by
  rw [search, dif_pos h]
  rfl

end Searcher

end GuardedSearch
