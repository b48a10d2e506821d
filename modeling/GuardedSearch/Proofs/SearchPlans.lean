import GuardedSearch.Proofs.Plans

/-!
# The plan of a search

The translation of a query and the rounds of a search as plans. A search is its plan, carried
out while a snapshot is held (`search_of_acquire_ok`), and the log of a recorded search has the
calls of its steps (`search_recorded`).
-/

namespace GuardedSearch

variable {σ : Type}

namespace Event

/-- A read of a document or of a term through the snapshot. -/
def Reads (snapshot : SnapshotHandle) : Event → Prop
  | fetch handle _ _ _ => handle = snapshot
  | lookup handle _ _ _ => handle = snapshot
  | _ => False

/-- A call that neither acquires nor releases a snapshot, and reads no other than this one. -/
def Uses (snapshot : SnapshotHandle) : Event → Prop
  | acquire _ => False
  | release _ => False
  | execute handle _ _ _ _ => handle = snapshot
  | fetch handle _ _ _ => handle = snapshot
  | lookup handle _ _ _ => handle = snapshot
  | enumerate handle _ _ _ => handle = snapshot
  | authorize _ _ _ => True

theorem Reads.uses {snapshot : SnapshotHandle} {e : Event} (h : e.Reads snapshot) :
    e.Uses snapshot := by
  cases e <;> first | exact h | exact h.elim

/-- What is read is neither a window nor a batch. -/
theorem Reads.limit?_batch? {snapshot : SnapshotHandle} {e : Event} (h : e.Reads snapshot) :
    e.limit? = none ∧ e.batch? = none := by
  cases e with
  | fetch | lookup => exact ⟨rfl, rfl⟩
  | _ => exact h.elim

end Event

-- ---------------------------------------------------------------------------
-- Translation
-- ---------------------------------------------------------------------------

namespace Query

variable (schema : Schema) (snapshot : SnapshotHandle)

def resolveIdPlan (uri : String) : Plan (Option Int32) := do
  match ← .ofAct (.lookup snapshot Field.uri uri) with
  | none => return none
  | some doc =>
    let stored ← .ofAct (.fetch snapshot doc (.ofNames [Field.id]))
    match (stored.get? Field.id).bind (·.head?) with
    | none => return none
    | some value =>
      match ← .ofAct (.read (value.decode .int32)) with
      | .int32 id => return some id
      | _ => return none

def subtreePlan (uri : String) (inverted : Bool) : Plan NativeQuery := do
  let subtree : NativeQuery := match ← resolveIdPlan snapshot (normalUri uri) with
    | some id =>
      let term := Term.ofInt32 id
      .disj [.term Field.id term, .term Field.ancestorIds term]
    | none => .none
  return if inverted then .neg subtree else subtree

mutual

def plan : Query → Plan NativeQuery
  | .term field operator value => .ofAct (.read (nativeTerm schema field operator value))
  | .startsWith field stem inverted =>
    .ofAct (.read (nativeStartsWith schema field stem inverted))
  | .range field lower upper inclusive =>
    .ofAct (.read (nativeRange schema field lower upper inclusive))
  | .wildcard field pattern => .ofAct (.read (nativeWildcard schema field pattern))
  | .present field => return .present field
  | .subtree uri inverted => subtreePlan snapshot uri inverted
  | .uriDepth depth => .ofAct (.read (nativeUriDepth depth))
  | .resourceType name operator => .ofAct (.read (nativeResourceType schema name operator))
  | .membership field operator value =>
    .ofAct (.read (nativeMembership schema field operator value))
  | .conj clauses => do return .conj (← planAll clauses)
  | .disj clauses => do return .disj (← planAll clauses)

def planAll : List Query → Plan (List NativeQuery)
  | [] => return []
  | query :: rest => do
    let native ← plan query
    let others ← planAll rest
    return native :: others

end

variable {schema} {snapshot} {s : Searcher σ}

theorem resolveIdPlan_run (uri : String) :
    (resolveIdPlan snapshot uri).run s = resolveId s.engine snapshot uri := by
  simp only [resolveIdPlan, resolveId, Plan.run_bind, Plan.run_ofAct, Act.perform]
  refine bind_congr fun found => ?_
  cases found with
  | none => rfl
  | some doc =>
    simp only [Plan.run_bind, Plan.run_ofAct, Act.perform]
    refine bind_congr fun stored => ?_
    cases (stored.get? Field.id).bind (·.head?) with
    | none => rfl
    | some value =>
      simp only [Plan.run_bind, Plan.run_ofAct, Act.perform]
      refine bind_congr fun id => ?_
      cases id <;> rfl

theorem subtreePlan_run (uri : String) (inverted : Bool) :
    (subtreePlan snapshot uri inverted).run s = nativeSubtree s.engine snapshot uri inverted := by
  simp only [subtreePlan, nativeSubtree, Plan.run_bind, resolveIdPlan_run, bind_assoc]
  refine bind_congr fun id => ?_
  cases id <;> rfl

mutual

theorem plan_run : (query : Query) →
    (query.plan schema snapshot).run s = query.translate schema s.engine snapshot
  | .term .. | .startsWith .. | .range .. | .wildcard .. | .uriDepth _ | .resourceType ..
  | .membership .. => Plan.run_ofAct _
  | .present _ => rfl
  | .subtree uri inverted => subtreePlan_run uri inverted
  | .conj clauses | .disj clauses => by
    rw [plan, translate, Plan.run_bind, planAll_run clauses]
    rfl

theorem planAll_run : (clauses : List Query) →
    (planAll schema snapshot clauses).run s = translateAll schema s.engine snapshot clauses
  | [] => rfl
  | query :: rest => by
    simp only [planAll, translateAll, Plan.run_bind, plan_run query, planAll_run rest]
    rfl

end

theorem resolveIdPlan_reads (uri : String) :
    (resolveIdPlan snapshot uri).Makes (Event.Reads snapshot) := by
  refine Plan.makes_ofAct_bind (fun _ => rfl) ?_
  intro found
  cases found with
  | none => exact Plan.makes_pure _
  | some doc =>
    refine Plan.makes_ofAct_bind (fun _ => rfl) ?_
    intro stored
    cases (stored.get? Field.id).bind (·.head?) with
    | none => exact Plan.makes_pure _
    | some value =>
      refine Plan.makes_ofAct_bind trivial ?_
      intro id
      cases id <;> exact Plan.makes_pure _

theorem subtreePlan_reads (uri : String) (inverted : Bool) :
    (subtreePlan snapshot uri inverted).Makes (Event.Reads snapshot) :=
  (resolveIdPlan_reads (normalUri uri)).bind fun _ => Plan.makes_pure _

mutual

theorem plan_reads : (query : Query) → (query.plan schema snapshot).Makes (Event.Reads snapshot)
  | .term .. | .startsWith .. | .range .. | .wildcard .. | .uriDepth _ | .resourceType ..
  | .membership .. => Plan.makes_ofAct trivial
  | .present _ => Plan.makes_pure _
  | .subtree uri inverted => subtreePlan_reads uri inverted
  | .conj clauses | .disj clauses => (planAll_reads clauses).bind fun _ => Plan.makes_pure _

theorem planAll_reads : (clauses : List Query) →
    (planAll schema snapshot clauses).Makes (Event.Reads snapshot)
  | [] => Plan.makes_pure _
  | query :: rest =>
    (plan_reads query).bind fun _ => (planAll_reads rest).bind fun _ => Plan.makes_pure _

end

end Query

-- ---------------------------------------------------------------------------
-- Search
-- ---------------------------------------------------------------------------

namespace Searcher

def describePlan (snapshot : SnapshotHandle) : List DocId → Plan (List SecurityDescriptor)
  | [] => return []
  | doc :: rest => do
    let stored ← .ofAct (.fetch snapshot doc SecurityDescriptor.selector)
    let descriptor ← .ofAct (.read ((SecurityDescriptor.ofStored doc stored).mapError .format))
    let others ← describePlan snapshot rest
    return descriptor :: others

def authorizePlan (token : Token) (snapshot : SnapshotHandle) (docs : List DocId) :
    Plan (List DocId) := do
  if docs.isEmpty then return []
  let batch ← describePlan snapshot docs
  let answered ← .ofAct (.authorize token batch)
  return (answered.filter (·.authorized)).map (·.docId)

/-- The values of stored fields, each decoded as the type of its field. -/
def decodePlan (schema : Schema) : List (String × List StoredValue) →
    Plan (List (String × List FieldValue))
  | [] => return []
  | e :: rest => do
    let values ← .readAll (StoredValue.decode (schema.typeOf e.1)) e.2
    let others ← decodePlan schema rest
    return (e.1, values) :: others

def recordPlan (schema : Schema) (doc : DocId) (stored : StoredFields) : Plan ResultRecord := do
  let decoded ← decodePlan schema stored.entries
  match (decoded.lookup Field.uri).bind (·.head?) with
  | some (.text uri) =>
    return ⟨doc, uri, Table.ofList (decoded.filter fun e => e.1 ≠ Field.uri)⟩
  | _ => .ofAct (.read (.error (.format (.noStoredUri doc))))

def materializeAllPlan (schema : Schema) (snapshot : SnapshotHandle) (select : PropertySelect) :
    List DocId → Plan (List ResultRecord)
  | [] => return []
  | doc :: rest => do
    let stored ← .ofAct (.fetch snapshot doc (recordSelector select))
    let record ← recordPlan schema doc stored
    let others ← materializeAllPlan schema snapshot select rest
    return record :: others

section Rounds

variable (config : SearchConfig) (token : Token) (request : SearchRequest)
  (snapshot : SnapshotHandle)

def widenPlan (query : NativeQuery) (limit : Nat) (hpos : 0 < limit) (scanned : Nat)
    (granted : List DocId) (rounds : Nat) : Plan Findings := do
  let top ← .ofAct (.execute snapshot query limit request.sorting)
  let newly ← authorizePlan token snapshot (top.docs.drop scanned)
  let granted := granted ++ newly
  if request.need config.maxLimit ≤ granted.length ∨ top.totalHits = top.docs.length then
    return ⟨granted, top.totalHits, rounds + 1⟩
  else if h : config.ceiling ≤ limit then
    return ⟨granted, top.totalHits, rounds + 1⟩
  else
    widenPlan query (nextLimit config limit)
      (Nat.lt_trans hpos (lt_nextLimit hpos (Nat.lt_of_not_le h))) top.docs.length granted
      (rounds + 1)
termination_by config.ceiling - limit
decreasing_by
  have := lt_nextLimit hpos (Nat.lt_of_not_le h)
  omega

end Rounds

variable (s : Searcher σ) (token : Token) (request : SearchRequest)

/-- What a search does while it holds a snapshot. -/
def plan (snapshot : SnapshotHandle) (hneed : 0 < request.need s.config.maxLimit) :
    Plan ResultSet := do
  let need := request.need s.config.maxLimit
  let query ← request.query.plan s.schema snapshot
  let findings ← widenPlan s.config token request snapshot query (firstLimit s.config need)
    (firstLimit_pos s.config_isValid hneed) 0 [] 0
  let records ← materializeAllPlan s.schema snapshot request.select
    (page request.cursor need findings.authorized)
  return ⟨records, findings.totalHits, findings.rounds, 0⟩

/-- The steps of a search, but for the release of its snapshot. -/
def steps (state : σ) : List Taken :=
  if hneed : request.need s.config.maxLimit = 0 then []
  else .call (.acquire (s.engine.acquire state).1) ::
    match s.engine.acquire state with
    | (.ok snapshot, state) =>
      (s.plan token request snapshot (Nat.pos_of_ne_zero hneed)).steps s state
    | (.error _, _) => []

/-- The release of the snapshot of a search, if it acquires one. -/
def releases (state : σ) : List Event :=
  if request.need s.config.maxLimit = 0 then []
  else match s.engine.acquire state with
    | (.ok snapshot, _) => [.release snapshot]
    | (.error _, _) => []

variable {s} {token} {request} {snapshot : SnapshotHandle}

theorem describePlan_run (docs : List DocId) :
    (describePlan snapshot docs).run s = s.describe snapshot docs := by
  induction docs with
  | nil => rfl
  | cons doc docs ih =>
    simp only [describePlan, describe, Plan.run_bind, Plan.run_ofAct, ih]
    rfl

theorem authorizePlan_run (docs : List DocId) :
    (authorizePlan token snapshot docs).run s = s.authorize token snapshot docs := by
  rw [authorizePlan, authorize]
  cases docs with
  | nil => rfl
  | cons doc docs =>
    simp only [List.isEmpty_cons, Bool.false_eq_true, ↓reduceIte, Plan.run_bind, Plan.run_ofAct,
      describePlan_run]
    rfl

theorem decodePlan_run {schema : Schema} (entries : List (String × List StoredValue)) :
    (decodePlan schema entries).run s = Step.ofExcept (entries.mapM fun e => do
      return (e.1, ← e.2.mapM (StoredValue.decode (schema.typeOf e.1)))) := by
  induction entries with
  | nil => rfl
  | cons e rest ih =>
    simp only [decodePlan, Plan.run_bind, Plan.run_readAll, ih, List.mapM_cons, Step.ofExcept_bind,
      bind_assoc]
    rfl

theorem recordPlan_run {schema : Schema} (doc : DocId) (stored : StoredFields) :
    (recordPlan schema doc stored).run s = Step.ofExcept (recordOf schema doc stored) := by
  simp only [recordPlan, recordOf, Plan.run_bind, decodePlan_run, Step.ofExcept_bind]
  refine bind_congr fun decoded => ?_
  cases (decoded.lookup Field.uri).bind (·.head?) with
  | none => exact Plan.run_ofAct _
  | some value => cases value <;> first | exact Plan.run_pure _ | exact Plan.run_ofAct _

theorem materializeAllPlan_run (select : PropertySelect) (docs : List DocId) :
    (materializeAllPlan s.schema snapshot select docs).run s =
      s.materializeAll snapshot select docs := by
  induction docs with
  | nil => rfl
  | cons doc docs ih =>
    simp only [materializeAllPlan, materializeAll, materialize, Plan.run_bind, Plan.run_ofAct,
      recordPlan_run, ih, bind_assoc]
    rfl

theorem widenPlan_run (query : NativeQuery) (limit : Nat) (hpos : 0 < limit) (scanned : Nat)
    (granted : List DocId) (rounds : Nat) :
    (widenPlan s.config token request snapshot query limit hpos scanned granted rounds).run s =
      s.widen token request snapshot query limit hpos scanned granted rounds := by
  induction limit using nextLimit_induction s.config generalizing scanned granted rounds with
  | round limit ih =>
    rw [widenPlan, widen]
    simp only [Plan.run_bind, Plan.run_ofAct, authorizePlan_run]
    refine bind_congr fun top => bind_congr fun newly => ?_
    split
    · rfl
    · split
      · rfl
      · next hceiling => exact ih hpos (Nat.lt_of_not_le hceiling) _ _ _ _

theorem plan_run (hneed : 0 < request.need s.config.maxLimit) :
    (s.plan token request snapshot hneed).run s = do
      let need := request.need s.config.maxLimit
      let query ← request.query.translate s.schema s.engine snapshot
      let findings ← s.widen token request snapshot query (firstLimit s.config need)
        (firstLimit_pos s.config_isValid hneed) 0 [] 0
      let records ← s.materializeAll snapshot request.select
        (page request.cursor need findings.authorized)
      return ⟨records, findings.totalHits, findings.rounds, 0⟩ := by
  simp only [plan, Plan.run_bind, Query.plan_run, widenPlan_run, materializeAllPlan_run]
  rfl

-- ---------------------------------------------------------------------------
-- The calls of a search
-- ---------------------------------------------------------------------------

theorem describePlan_reads (docs : List DocId) :
    (describePlan snapshot docs).Makes (Event.Reads snapshot) := by
  induction docs with
  | nil => exact Plan.makes_pure _
  | cons doc docs ih =>
    refine Plan.makes_ofAct_bind (fun _ => rfl) fun _ => Plan.makes_ofAct_bind trivial fun _ => ?_
    exact ih.bind fun _ => Plan.makes_pure _

theorem decodePlan_makes {schema : Schema} {kind : Event → Prop}
    (entries : List (String × List StoredValue)) : (decodePlan schema entries).Makes kind := by
  induction entries with
  | nil => exact Plan.makes_pure _
  | cons e rest ih =>
    exact (Plan.makes_readAll _ _).bind fun _ => ih.bind fun _ => Plan.makes_pure _

theorem recordPlan_makes {schema : Schema} {kind : Event → Prop} (doc : DocId)
    (stored : StoredFields) : (recordPlan schema doc stored).Makes kind := by
  refine (decodePlan_makes _).bind fun decoded => ?_
  cases (decoded.lookup Field.uri).bind (·.head?) with
  | none => exact Plan.makes_ofAct trivial
  | some value => cases value <;> first | exact Plan.makes_pure _ | exact Plan.makes_ofAct trivial

theorem materializeAllPlan_reads {schema : Schema} {select : PropertySelect} (docs : List DocId) :
    (materializeAllPlan schema snapshot select docs).Makes (Event.Reads snapshot) := by
  induction docs with
  | nil => exact Plan.makes_pure _
  | cons doc docs ih =>
    refine Plan.makes_ofAct_bind (fun _ => rfl) fun _ => (recordPlan_makes _ _).bind fun _ => ?_
    exact ih.bind fun _ => Plan.makes_pure _

theorem authorizePlan_makes (docs : List DocId) : (authorizePlan token snapshot docs).Makes
    fun e => e.Uses snapshot ∧ e.limit? = none := by
  rw [authorizePlan]
  cases docs with
  | nil => exact Plan.makes_pure _
  | cons doc docs =>
    refine Plan.Makes.bind ?_ fun _ =>
      Plan.makes_ofAct_bind (fun _ => ⟨trivial, rfl⟩) fun _ => Plan.makes_pure _
    exact (describePlan_reads _).mono fun e he => ⟨he.uses, he.limit?_batch?.1⟩

theorem widenPlan_uses (config : SearchConfig) (query : NativeQuery) (limit : Nat)
    (hpos : 0 < limit) (scanned : Nat) (granted : List DocId) (rounds : Nat) :
    (widenPlan config token request snapshot query limit hpos scanned granted rounds).Makes
      (Event.Uses snapshot) := by
  induction limit using nextLimit_induction config generalizing scanned granted rounds with
  | round limit ih =>
    rw [widenPlan]
    refine Plan.makes_ofAct_bind (fun _ => rfl) ?_
    intro top
    apply ((authorizePlan_makes _).mono fun _ he => he.1).bind
    intro newly
    dsimp only
    split
    · exact Plan.makes_pure _
    · split
      · exact Plan.makes_pure _
      · next hceiling => exact ih hpos (Nat.lt_of_not_le hceiling) _ _ _ _

theorem plan_uses (hneed : 0 < request.need s.config.maxLimit) :
    (s.plan token request snapshot hneed).Makes (Event.Uses snapshot) :=
  ((Query.plan_reads _).mono fun _ => Event.Reads.uses).bind fun _ =>
    (widenPlan_uses ..).bind fun _ =>
      ((materializeAllPlan_reads _).mono fun _ => Event.Reads.uses).bind fun _ =>
        Plan.makes_pure _

-- ---------------------------------------------------------------------------
-- Snapshots
-- ---------------------------------------------------------------------------

section Cases

variable {state mid : σ} (hneed : 0 < request.need s.config.maxLimit)

include hneed

theorem search_of_acquire_error {e : EngineError} (h : s.engine.acquire state = (.error e, mid)) :
    s.search token request state = (.error (.queryExecution e), mid) := by
  rw [search, dif_neg (Nat.ne_of_gt hneed), Step.withSnapshot, Step.bind_run, Step.call_run, h]
  rfl

/-- A search that holds a snapshot carries out its plan, and then releases the snapshot. -/
theorem search_of_acquire_ok (h : s.engine.acquire state = (.ok snapshot, mid)) :
    s.search token request state = (((s.plan token request snapshot hneed).run s mid).1,
      (s.engine.release snapshot ((s.plan token request snapshot hneed).run s mid).2).2) := by
  rw [search, dif_neg (Nat.ne_of_gt hneed), Step.withSnapshot, Step.bind_run, Step.call_run, h,
    plan_run]
  rfl

theorem steps_of_acquire_ok (h : s.engine.acquire state = (.ok snapshot, mid)) :
    s.steps token request state = .call (.acquire (.ok snapshot)) ::
      (s.plan token request snapshot hneed).steps s mid := by
  rw [steps, dif_neg (Nat.ne_of_gt hneed), h]

end Cases

/-- A search needs nothing, or fails to acquire a snapshot, or carries out its plan while it
holds one. -/
theorem search_cases (s : Searcher σ) (token : Token) (request : SearchRequest) (state : σ) :
    (request.need s.config.maxLimit = 0 ∧ s.search token request state = (.ok .empty, state) ∧
      s.steps token request state = [] ∧ s.releases request state = []) ∨
    (0 < request.need s.config.maxLimit ∧ ∃ e mid, s.engine.acquire state = (.error e, mid) ∧
      s.search token request state = (.error (.queryExecution e), mid) ∧
      s.steps token request state = [.call (.acquire (.error e))] ∧ s.releases request state = []) ∨
    ∃ (hneed : 0 < request.need s.config.maxLimit) (snapshot : SnapshotHandle) (mid : σ),
      s.engine.acquire state = (.ok snapshot, mid) ∧
      s.search token request state = (((s.plan token request snapshot hneed).run s mid).1,
        (s.engine.release snapshot ((s.plan token request snapshot hneed).run s mid).2).2) ∧
      s.steps token request state = .call (.acquire (.ok snapshot)) ::
        (s.plan token request snapshot hneed).steps s mid ∧
      s.releases request state = [.release snapshot] := by
  by_cases hneed : request.need s.config.maxLimit = 0
  · refine .inl ⟨hneed, search_of_need_eq_zero s token hneed state, ?_, ?_⟩
    · rw [steps, dif_pos hneed]
    · rw [releases, if_pos hneed]
  · have hpos := Nat.pos_of_ne_zero hneed
    rcases hacquire : s.engine.acquire state with ⟨e | snapshot, mid⟩
    · refine .inr (.inl ⟨hpos, e, mid, rfl, search_of_acquire_error hpos hacquire, ?_, ?_⟩)
      · rw [steps, dif_neg hneed, hacquire]
      · rw [releases, if_neg hneed, hacquire]
    · refine .inr (.inr ⟨hpos, snapshot, mid, rfl, search_of_acquire_ok hpos hacquire,
        steps_of_acquire_ok hpos hacquire, ?_⟩)
      rw [releases, if_neg hneed, hacquire]

/-- A search that is recorded ends as it does otherwise, and its log has the calls of its steps
and the release of its snapshot. -/
theorem search_recorded (s : Searcher σ) (token : Token) (request : SearchRequest)
    (log : List Event) (state : σ) :
    s.recorded.search token request (log, state) =
      ((s.search token request state).1,
        log ++ (callsOf (s.steps token request state) ++ s.releases request state),
        (s.search token request state).2) := by
  have hacquired {outcome : Except EngineError SnapshotHandle} {mid : σ}
      (h : s.engine.acquire state = (outcome, mid)) :
      s.recorded.engine.acquire (log, state) = (outcome, log ++ [.acquire outcome], mid) := by
    change ((s.engine.acquire state).1, log ++ [.acquire (s.engine.acquire state).1],
      (s.engine.acquire state).2) = _
    rw [h]
  obtain ⟨hneed, hsearch, hsteps, hreleases⟩ |
    ⟨hneed, e, mid, hacquire, hsearch, hsteps, hreleases⟩ |
    ⟨hneed, snapshot, mid, hacquire, hsearch, hsteps, hreleases⟩ :=
      s.search_cases token request state
  · rw [hsearch, hsteps, hreleases, search_of_need_eq_zero s.recorded token hneed]
    simp [callsOf]
  · rw [hsearch, hsteps, hreleases,
      search_of_acquire_error (s := s.recorded) hneed (hacquired hacquire)]
    rfl
  · have hplan : s.recorded.plan token request snapshot hneed =
        s.plan token request snapshot hneed := rfl
    rw [hsearch, hsteps, hreleases,
      search_of_acquire_ok (s := s.recorded) hneed (hacquired hacquire), hplan, Plan.run_recorded]
    refine Prod.ext rfl (Prod.ext ?_ rfl)
    change log ++ [.acquire (.ok snapshot)] ++ callsOf _ ++ [.release snapshot] = _
    simp [callsOf, Taken.event?]

/-- Recording changes no answer and no state, and what it adds to a log does not depend on the
log. -/
theorem search_mirrors (s : Searcher σ) (token : Token) (request : SearchRequest) (state : σ) :
    ∃ events, ∀ log, s.recorded.search token request (log, state) =
      ((s.search token request state).1, log ++ events, (s.search token request state).2) :=
  ⟨_, fun log => s.search_recorded token request log state⟩

end Searcher

end GuardedSearch
