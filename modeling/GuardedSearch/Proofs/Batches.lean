import GuardedSearch.Proofs.Releases
import GuardedSearch.Proofs.Schedule
import GuardedSearch.Proofs.StoredForms

/-!
# What is put to the oracle

Every round runs the query anew and puts to the oracle what the rounds before did not return. As
all rounds read one snapshot, they return fronts of one ranking, so that each document of the
longest is put to the oracle once, whatever happens to the index meanwhile (`search_batches`).
-/

namespace GuardedSearch

variable {σ τ : Type} {α : Type}

-- ---------------------------------------------------------------------------
-- Descriptors
-- ---------------------------------------------------------------------------

/-- A descriptor that tells what is stored of a document: its first uri, its owner if that is a
text, and its acl node. -/
structure SecurityDescriptor.Tells (d : SecurityDescriptor) (stored : StoredFields) : Prop where
  uri : stored.first? Field.uri = some (.text d.uri)
  owner : ∀ owner, d.owner = some owner ↔ stored.first? Field.owner = some (.text owner)
  aclNodeId : stored.first? Field.aclNodeId = d.aclNodeId.map fun n => (FieldValue.int32 n).stored
  unmarked : d.authorized = false

theorem SecurityDescriptor.ofStored_tells {doc : DocId} {stored : StoredFields}
    {d : SecurityDescriptor} (h : ofStored doc stored = .ok d) : d.Tells stored := by
  have hunmarked := (ofStored_ok h).2
  simp only [ofStored] at h
  split at h
  · next uri huri =>
    split at h
    · next bytes hbytes =>
      rw [Outcome.bind_ok] at h
      obtain ⟨n, hn, h⟩ := h
      obtain rfl := Outcome.pure_ok.mp h
      refine ⟨huri, fun owner => ?_, ?_, hunmarked⟩
      · split
        · next text htext => simp [Table.first?, htext]
        · next hother => simpa [Table.first?] using hother owner
      · rw [Table.first?, hbytes, Bytes.toInt32_eq_ok_iff.mp hn]
        rfl
    · cases h
    · next hnone =>
      obtain rfl := Except.ok.inj h
      refine ⟨huri, fun owner => ?_, hnone, hunmarked⟩
      split
      · next text htext => simp [Table.first?, htext]
      · next hother => simpa [Table.first?] using hother owner
  · cases h

namespace Index

variable {pinned : Index} {snapshot : SnapshotHandle} {s : Segment} {d : SecurityDescriptor}

/-- What the oracle is told about a document is what is stored of it in the segment that is
pinned. -/
theorem descriptor?_tells (hs : pinned.segment? snapshot = .ok s) {doc : DocId}
    (h : pinned.descriptor? snapshot doc = some d) :
    ∃ entry, s.docs[d.docId.ordinal]? = some entry ∧ d.Tells entry.stored := by
  rw [descriptor?_docId h]
  rw [descriptor?] at h
  split at h
  · next stored hstored =>
    rw [fetch, Outcome.bind_ok] at hstored
    obtain ⟨segment, hsegment, hstored⟩ := hstored
    obtain rfl := Except.ok.inj (hs.symm.trans hsegment)
    rw [Segment.fetch] at hstored
    split at hstored
    · next entry hentry =>
      obtain rfl := Except.ok.inj hstored
      have htells := SecurityDescriptor.ofStored_tells (Outcome.toOption_eq_some.mp h)
      have hread {name} (hname : SecurityDescriptor.selector.admits name = true) :=
        entry.stored.first?_filterKeys hname
      have huri := hread (show SecurityDescriptor.selector.admits Field.uri = true by decide)
      have howner := hread (show SecurityDescriptor.selector.admits Field.owner = true by decide)
      have hnode := hread (show SecurityDescriptor.selector.admits Field.aclNodeId = true by decide)
      exact ⟨entry, hentry, huri ▸ htells.uri, howner ▸ htells.owner, hnode ▸ htells.aclNodeId,
        htells.unmarked⟩
    · cases hstored
  · cases h

/-- No document stands in a ranking twice. -/
theorem Ranks.nodup {query : NativeQuery} {sorting : Sorting} {ranked : List DocId}
    (h : pinned.Ranks snapshot query sorting ranked) (hs : pinned.segment? snapshot = .ok s) :
    ranked.Nodup := by
  have htop := h .empty ranked.length
  rw [execute_eq hs] at htop
  rw [List.take_length] at htop
  have hdocs : (s.top query ranked.length sorting .empty).1.docs = ranked :=
    congrArg TopDocs.docs (Except.ok.inj htop)
  rw [← hdocs]
  refine List.Nodup.map ?_ ((List.take_sublist ..).nodup (s.nodup_ranked ..))
  exact fun _ _ => DocId.mk.inj

end Index

-- ---------------------------------------------------------------------------
-- Reads beside other state
-- ---------------------------------------------------------------------------

/-- What happens to the index while the oracle answers are operations of the index. -/
def Oracle.EvolvesIndex (oracle : Oracle ((FilterCache × Index) × τ)) : Prop :=
  ∀ token batch state, Index.Evolves state.1.2 (oracle.authorize token batch state).2.1.2

/-- The index goes on from what is pinned while a plan is carried out. -/
theorem Plan.run_evolves {s : Searcher ((FilterCache × Index) × τ)}
    (hengine : s.engine = Index.engine.beside τ) (hevolves : s.oracle.EvolvesIndex) {p : Plan α}
    {a : α} {pinned : Index} {state state' : (FilterCache × Index) × τ}
    (hrun : pinned.Evolves state.1.2) (h : p.run s state = (.ok a, state')) :
    pinned.Evolves state'.1.2 := by
  have hkept := p.run_keeps hengine (I := pinned.Evolves)
    (fun token batch state h => h.trans (hevolves token batch state)) hrun
  rwa [h] at hkept

/-- A plan that only reads does not tell what else there is beside the state of the engine. -/
theorem Plan.run_beside {p : Plan α} {snapshot : SnapshotHandle} {s : Searcher (σ × τ)}
    {t : Searcher σ} (h : p.Makes (Event.Reads snapshot)) (hengine : s.engine = t.engine.beside τ)
    (state : σ) (other : τ) :
    p.run s (state, other) = ((p.run t state).1, (p.run t state).2, other) := by
  induction p generalizing state with
  | done a => rfl
  | step act next ih =>
    have hact : act.perform s (state, other) =
        ((act.perform t state).1, (act.perform t state).2, other) := by
      cases act with
      | lookup | fetch =>
        rw [Act.perform, hengine]
        rfl
      | execute => exact (h.1 (.error .tooManyDocuments)).elim
      | authorize => exact (h.1 (.error .cancelled)).elim
      | read => rfl
    rw [run, run, Step.bind_run, Step.bind_run, hact]
    rcases act.perform t state with ⟨e | b, mid⟩
    · rfl
    · exact ih b (h.2 b) mid

-- ---------------------------------------------------------------------------
-- Batches
-- ---------------------------------------------------------------------------

theorem Index.docIds_of_described {pinned : Index} {snapshot : SnapshotHandle} {docs : List DocId}
    {batch : List SecurityDescriptor}
    (h : docs.map (pinned.descriptor? snapshot) = batch.map some) :
    batch.map (·.docId) = docs := by
  induction docs generalizing batch with
  | nil => simpa using h.symm
  | cons doc docs ih =>
    cases batch with
    | nil => cases h
    | cons d batch =>
      obtain ⟨hd, hrest⟩ := List.cons.inj h
      rw [List.map_cons, descriptor?_docId hd, ih hrest]

/-- These documents are put to the oracle in their order, with what is read of them through the
snapshot, and it is never asked about nothing. -/
structure Puts (pinned : Index) (snapshot : SnapshotHandle)
    (batches : List (List SecurityDescriptor)) (docs : List DocId) : Prop where
  described : docs.map (pinned.descriptor? snapshot) = batches.flatten.map some
  nonempty : ∀ batch ∈ batches, batch ≠ []

namespace Puts

variable {pinned : Index} {snapshot : SnapshotHandle}
  {batches more : List (List SecurityDescriptor)} {docs others : List DocId}

theorem nil : Puts pinned snapshot [] [] := ⟨rfl, List.forall_mem_nil _⟩

theorem append (h : Puts pinned snapshot batches docs) (hmore : Puts pinned snapshot more others) :
    Puts pinned snapshot (batches ++ more) (docs ++ others) where
  described := by
    rw [List.map_append, h.described, hmore.described, List.flatten_append, List.map_append]
  nonempty := List.forall_mem_append.mpr ⟨h.nonempty, hmore.nonempty⟩

theorem mem (h : Puts pinned snapshot batches docs) {d : SecurityDescriptor}
    (hd : d ∈ batches.flatten) : ∃ doc, pinned.descriptor? snapshot doc = some d := by
  have hmem := List.mem_map_of_mem (f := some) hd
  rw [← h.described, List.mem_map] at hmem
  obtain ⟨doc, -, hdoc⟩ := hmem
  exact ⟨doc, hdoc⟩

end Puts

namespace Searcher

variable {s : Searcher σ} {token : Token} {request : SearchRequest} {snapshot : SnapshotHandle}
  {state : σ}

theorem batchesOf_append (log more : List Event) :
    batchesOf (log ++ more) = batchesOf log ++ batchesOf more := List.filterMap_append

theorem batchesOf_of_reads {p : Plan α} (h : p.Makes (Event.Reads snapshot)) :
    batchesOf (callsOf (p.steps s state)) = [] :=
  List.filterMap_eq_nil_iff.mpr fun e he => (h.steps e he).limit?_batch?.2

theorem batchesOf_releases : batchesOf (s.releases request state) = [] := by
  rw [releases]
  split
  · rfl
  · split <;> rfl

theorem batchesOf_execute {query : NativeQuery} {limit : Nat} {sorting : Sorting} :
    batchesOf (callsOf ((Plan.ofAct (.execute snapshot query limit sorting)).steps s state)) =
      [] := by
  rw [Plan.steps_ofAct]
  rfl

theorem batchesOf_authorize {batch : List SecurityDescriptor} :
    batchesOf (callsOf ((Plan.ofAct (.authorize token batch)).steps s state)) = [batch] := by
  rw [Plan.steps_ofAct]
  rfl

/-- The batches of a round and of what follows it. -/
theorem batchesOf_round {query : NativeQuery} {limit : Nat} {sorting : Sorting}
    {docs : List DocId} {mid : σ} {log : List Event} :
    batchesOf (callsOf ((Plan.ofAct (.execute snapshot query limit sorting)).steps s state) ++
      (callsOf ((authorizePlan token snapshot docs).steps s mid) ++ log)) =
        batchesOf (callsOf ((authorizePlan token snapshot docs).steps s mid)) ++
          batchesOf log := by
  rw [batchesOf_append, batchesOf_append, batchesOf_execute, List.nil_append]

/-- What a front has beyond an index, and what a longer one has beyond it, is what the longer
one has beyond the index. -/
theorem drop_take_append (l : List α) {start m n : Nat} (hstart : start ≤ (l.take m).length)
    (h : m ≤ n) :
    (l.take m).drop start ++ (l.take n).drop (l.take m).length = (l.take n).drop start := by
  obtain ⟨rest, hrest⟩ : l.take m <+: l.take n := List.take_prefix_take_left h
  rw [← hrest, List.drop_left, List.drop_append_of_le_length hstart]

-- ---------------------------------------------------------------------------
-- Rounds
-- ---------------------------------------------------------------------------

/-- The searcher over the index alone. What it reads does not depend on its oracle. -/
def overIndex (s : Searcher ((FilterCache × Index) × τ)) : Searcher (FilterCache × Index) :=
  ⟨s.schema, Index.engine, .ofPredicate fun _ _ => false, s.config, s.config_isValid⟩

section Rounds

variable {s : Searcher ((FilterCache × Index) × τ)} {pinned : Index}
  {state state' : (FilterCache × Index) × τ} (hengine : s.engine = Index.engine.beside τ)
  (hid : snapshot.id ≤ pinned.acquired) (hrun : pinned.Evolves state.1.2)

include hengine hid hrun

theorem describePlan_ok {docs : List DocId} {batch : List SecurityDescriptor}
    (h : (describePlan snapshot docs).run s state = (.ok batch, state')) :
    docs.map (pinned.descriptor? snapshot) = batch.map some := by
  obtain ⟨shared, other⟩ := state
  rw [Plan.run_beside (t := s.overIndex) (describePlan_reads docs) hengine, describePlan_run] at h
  have hok : (s.overIndex.describe snapshot docs shared).1 = .ok batch := congrArg Prod.fst h
  exact (describe_ok (s := s.overIndex) rfl hrun hid (Prod.ext hok rfl)).2

theorem authorizePlan_puts {docs newly : List DocId}
    (h : (authorizePlan token snapshot docs).run s state = (.ok newly, state')) :
    Puts pinned snapshot
      (batchesOf (callsOf ((authorizePlan token snapshot docs).steps s state))) docs := by
  rw [authorizePlan] at h ⊢
  cases docs with
  | nil => exact .nil
  | cons doc docs =>
    simp only [List.isEmpty_cons, Bool.false_eq_true, ↓reduceIte] at h ⊢
    obtain ⟨batch, mid, hbatch, h, hsteps⟩ := Plan.bind_ok h
    rw [hsteps, callsOf_append, batchesOf_append, batchesOf_of_reads (describePlan_reads _)]
    obtain ⟨answered, after, -, -, hsteps⟩ := Plan.bind_ok h
    rw [hsteps, callsOf_append, batchesOf_append, batchesOf_authorize]
    have hdescribed := describePlan_ok hengine hid hrun hbatch
    have hbatches : batchesOf (callsOf ([] : List Taken)) = [] := rfl
    rw [Plan.steps_pure, hbatches, List.append_nil, List.nil_append]
    refine ⟨by rwa [List.flatten_singleton], ?_⟩
    rintro _ hmem rfl
    rw [← List.mem_singleton.mp hmem] at hdescribed
    cases hdescribed

/-- A round is answered with a front of the ranking. -/
theorem execute_ranked {query : NativeQuery} {limit : Nat} {sorting : Sorting}
    {ranked : List DocId} (hranks : pinned.Ranks snapshot query sorting ranked) {top : TopDocs}
    (h : (Plan.ofAct (.execute snapshot query limit sorting)).run s state = (.ok top, state')) :
    top = ⟨ranked.take limit, ranked.length⟩ ∧ state'.1.2 = state.1.2 := by
  rw [Plan.run_ofAct, Act.perform, Step.call_ok, hengine] at h
  obtain ⟨⟨cells, index⟩, other⟩ := state
  have hfound : (index.execute snapshot query limit sorting cells).1 = .ok top :=
    congrArg Prod.fst h
  have hfirst := hranks cells limit
  rw [Index.execute_shown hrun hid (Prod.ext hfound rfl)] at hfirst
  exact ⟨Except.ok.inj hfirst, (congrArg (·.2.1.2) h).symm⟩

end Rounds

/-- A log whose last window is a front of the ranking, and whose batches are what the front has
beyond an index. -/
structure Scans (pinned : Index) (snapshot : SnapshotHandle) (ranked : List DocId)
    (scanned last : Nat) (log : List Event) : Prop where
  ends : (limitsOf log).getLast? = some last
  puts : Puts pinned snapshot (batchesOf log) ((ranked.take last).drop scanned)

/-- The rounds put to the oracle what the front that the last of them asks for has beyond what
was scanned before. Each round scans on from where the one before ended, and this is kept from
round to round. -/
theorem widenPlan_scans {s : Searcher ((FilterCache × Index) × τ)} {pinned : Index}
    (hengine : s.engine = Index.engine.beside τ) (hevolves : s.oracle.EvolvesIndex)
    (hid : snapshot.id ≤ pinned.acquired) {query : NativeQuery} {ranked : List DocId}
    (hranks : pinned.Ranks snapshot query request.sorting ranked) {limit : Nat} {hpos : 0 < limit}
    {scanned : Nat} {granted : List DocId} {rounds : Nat} {findings : Findings}
    {state state' : (FilterCache × Index) × τ} (hrun : pinned.Evolves state.1.2)
    (hscanned : scanned ≤ (ranked.take limit).length)
    (h : (widenPlan s.config token request snapshot query limit hpos scanned granted rounds).run s
      state = (.ok findings, state')) :
    ∃ last, limit ≤ last ∧ Scans pinned snapshot ranked scanned last
      (callsOf ((widenPlan s.config token request snapshot query limit hpos scanned granted
        rounds).steps s state)) := by
  induction limit using nextLimit_induction s.config generalizing scanned granted rounds state with
  | round limit ih =>
    rw [widenPlan] at h ⊢
    obtain ⟨top, mid, htop, h, hsteps⟩ := Plan.bind_ok h
    rw [hsteps, callsOf_append]
    obtain ⟨rfl, hindex⟩ := execute_ranked hengine hid hrun hranks htop
    have hmid : pinned.Evolves mid.1.2 := by rwa [hindex]
    obtain ⟨newly, after, hnewly, h, hsteps⟩ := Plan.bind_ok h
    rw [hsteps, callsOf_append]
    have hputs := authorizePlan_puts hengine hid hmid hnewly
    have hafter := Plan.run_evolves hengine hevolves hmid hnewly
    have hlast : Scans pinned snapshot ranked scanned limit
        (callsOf ((Plan.ofAct (.execute snapshot query limit request.sorting)).steps s state) ++
          (callsOf ((authorizePlan token snapshot ((ranked.take limit).drop scanned)).steps s
            mid) ++ [])) := by
      refine ⟨by rw [limitsOf_round]; rfl, ?_⟩
      rw [batchesOf_round]
      simpa [batchesOf] using hputs
    dsimp only at h ⊢
    split
    · exact ⟨limit, Nat.le_refl _, hlast⟩
    · next hmore =>
      split
      · exact ⟨limit, Nat.le_refl _, hlast⟩
      · next hceiling =>
        have hbelow := Nat.lt_of_not_le hceiling
        rw [if_neg hmore, dif_neg hceiling] at h
        have hgrows := lt_nextLimit hpos hbelow
        obtain ⟨last, hle, hends, hlater⟩ := ih hpos hbelow hafter
          (by simp only [List.length_take]; omega) h
        refine ⟨last, by omega, ?_, ?_⟩
        · rw [limitsOf_round, List.getLast?_cons, hends]
          rfl
        · rw [batchesOf_round, ← drop_take_append ranked hscanned (by omega : limit ≤ last)]
          exact hputs.append hlater

section Found

variable {s : Searcher ((FilterCache × Index) × τ)} {index : Index} {cells : FilterCache}
  {other : τ} (hreachable : index.Reachable) (hengine : s.engine = Index.engine.beside τ)
  (hevolves : s.oracle.EvolvesIndex)

include hreachable hengine hevolves

theorem plan_scans (hneed : 0 < request.need s.config.maxLimit) {result : ResultSet}
    {state' : (FilterCache × Index) × τ}
    (h : (s.plan token request index.acquire.1 hneed).run s ((cells, index.acquire.2), other) =
      (.ok result, state')) :
    ∃ native ranked last,
      request.query.translate s.schema Index.engine index.acquire.1 (cells, index.acquire.2) =
        (.ok native, cells, index.acquire.2) ∧
      index.acquire.2.Ranks index.acquire.1 native request.sorting ranked ∧
      Scans index.acquire.2 index.acquire.1 ranked 0 last
        (callsOf ((s.plan token request index.acquire.1 hneed).steps s
          ((cells, index.acquire.2), other))) := by
  rw [plan] at h ⊢
  obtain ⟨native, mid, hnative, h, hsteps⟩ := Plan.bind_ok h
  rw [hsteps, callsOf_append]
  rw [Plan.run_beside (t := s.overIndex) (Query.plan_reads _) hengine, Query.plan_run] at hnative
  obtain ⟨hok, hmid⟩ := Prod.mk.inj hnative
  have htranslate : request.query.translate s.schema Index.engine index.acquire.1
      (cells, index.acquire.2) = (.ok native, mid.1) := Prod.ext hok (congrArg Prod.fst hmid)
  obtain ⟨hmid, hunshared⟩ := Query.translate_unshared _ htranslate
  obtain ⟨ranked, hranks, -⟩ := hreachable.exists_ranks hunshared request.sorting
  have hstart : index.acquire.2.Evolves mid.1.2 := by
    rw [hmid]
    exact .refl
  obtain ⟨findings, after, hfindings, -, hsteps⟩ := Plan.bind_ok h
  rw [hsteps, callsOf_append]
  obtain ⟨last, -, hends, hputs⟩ := widenPlan_scans hengine hevolves (Nat.le_refl _) hranks hstart
    (Nat.zero_le _) hfindings
  rw [hmid] at htranslate
  have hrecords : (materializeAllPlan s.schema index.acquire.1 request.select
      (page request.cursor (request.need s.config.maxLimit) findings.authorized) >>= fun records =>
        (pure ⟨records, findings.totalHits, findings.rounds, 0⟩ : Plan ResultSet)).Makes
          (Event.Reads index.acquire.1) :=
    (materializeAllPlan_reads _).bind fun _ => Plan.makes_pure _
  refine ⟨native, ranked, last, htranslate, hranks, ?_, ?_⟩
  · rw [limitsOf_append, limitsOf_append, limitsOf_of_reads (Query.plan_reads _),
      limitsOf_of_reads hrecords, List.append_nil, List.nil_append, hends]
  · rw [batchesOf_append, batchesOf_append, batchesOf_of_reads (Query.plan_reads _),
      batchesOf_of_reads hrecords, List.append_nil, List.nil_append]
    exact hputs

/-- A search that succeeds puts to the oracle, batch by batch, the front of the ranking that its
last round asks for, each document once and with what the segment that was current when the
search began stores of it. It does so whatever the oracle answers, and whatever happens to the
index while it answers. For a page of no documents it asks nothing. -/
theorem search_batches (token : Token) (request : SearchRequest) (cells : FilterCache) (other : τ)
    {result : ResultSet}
    (h : (s.search token request ((cells, index), other)).1 = .ok result) :
    ∃ log, s.recorded.search token request ([], (cells, index), other) =
        (.ok result, log, (s.search token request ((cells, index), other)).2) ∧
      (request.need s.config.maxLimit = 0 → log = []) ∧
      (0 < request.need s.config.maxLimit → ∃ native ranked last,
        request.query.translate s.schema Index.engine index.acquire.1 (cells, index.acquire.2) =
          (.ok native, cells, index.acquire.2) ∧
        index.acquire.2.Ranks index.acquire.1 native request.sorting ranked ∧ ranked.Nodup ∧
        (limitsOf log).getLast? = some last ∧
        (batchesOf log).flatten.map (·.docId) = ranked.take last ∧
        (∀ batch ∈ batchesOf log, batch ≠ []) ∧
        ∀ d ∈ (batchesOf log).flatten, ∃ entry,
          index.current.docs[d.docId.ordinal]? = some entry ∧ d.Tells entry.stored) := by
  have hrecorded := s.search_recorded token request [] ((cells, index), other)
  rw [h, List.nil_append] at hrecorded
  refine ⟨_, hrecorded, fun hneed => ?_, fun hneed => ?_⟩
  · rw [steps, releases, dif_pos hneed, if_pos hneed]
    rfl
  · have hacquire : s.engine.acquire ((cells, index), other) =
        (.ok index.acquire.1, (cells, index.acquire.2), other) := by
      rw [hengine]
      rfl
    rw [search_of_acquire_ok hneed hacquire] at h
    obtain ⟨native, ranked, last, htranslate, hranks, hends, hputs⟩ :=
      plan_scans hreachable hengine hevolves hneed (Prod.ext h rfl)
    have hsegment : index.acquire.2.segment? index.acquire.1 = .ok index.current := by
      rw [Index.segment?_eq_iff]
      exact List.lookup_cons_self
    have hsteps : s.steps token request ((cells, index), other) = _ :=
      steps_of_acquire_ok hneed hacquire
    have hlimits : limitsOf (callsOf (s.steps token request ((cells, index), other)) ++
        s.releases request ((cells, index), other)) = limitsOf (callsOf
          ((s.plan token request index.acquire.1 hneed).steps s
            ((cells, index.acquire.2), other))) := by
      rw [limitsOf_append, limitsOf_releases, List.append_nil, hsteps]
      rfl
    have hbatches : batchesOf (callsOf (s.steps token request ((cells, index), other)) ++
        s.releases request ((cells, index), other)) = batchesOf (callsOf
          ((s.plan token request index.acquire.1 hneed).steps s
            ((cells, index.acquire.2), other))) := by
      rw [batchesOf_append, batchesOf_releases, List.append_nil, hsteps]
      rfl
    refine ⟨native, ranked, last, htranslate, hranks, hranks.nodup hsegment, ?_, ?_, ?_, ?_⟩
    · rwa [hlimits]
    · rw [hbatches]
      exact Index.docIds_of_described hputs.described
    · rw [hbatches]
      exact hputs.nonempty
    · rw [hbatches]
      intro d hd
      obtain ⟨doc, hdoc⟩ := hputs.mem hd
      exact Index.descriptor?_tells hsegment hdoc

end Found

/-- An oracle that counts its calls, grants nothing, and publishes a deletion when it is asked. -/
def meddling : Oracle ((FilterCache × Index) × Nat) where
  authorize _ batch := fun ((cells, index), calls) =>
    (.ok batch, (cells, (index.delete "/b").2.commit.2), calls + 1)

theorem meddling_evolvesIndex : meddling.EvolvesIndex := by
  rintro token batch ⟨⟨cells, index⟩, calls⟩
  exact (Relation.ReflTransGen.single (.delete index "/b")).tail (.commit _)

def overMeddling : Searcher ((FilterCache × Index) × Nat) :=
  ⟨.initial, Index.engine.beside Nat, meddling, narrow, narrow_isValid⟩

/-- The second document is put to the oracle in the second round, though it has been deleted. -/
theorem search_batches_deleted_meanwhile : ∃ log state result,
    overMeddling.recorded.search ⟨"caller"⟩ firstResource ([], (.empty, Index.tagged.commit.2), 0) =
        (.ok result, log, state) ∧ result.rounds = 2 ∧ state.1.2.docCount = 1 ∧
      limitsOf log = [1, 2] ∧ (batchesOf log).flatten.map (·.docId) = [⟨0⟩, ⟨1⟩] := by
  have hresult : (overMeddling.search ⟨"caller"⟩ firstResource
      ((.empty, Index.tagged.commit.2), 0)).1.toOption = some ⟨[], 2, 2, 0⟩ := by
    decide +kernel
  have hcount : (overMeddling.search ⟨"caller"⟩ firstResource
      ((.empty, Index.tagged.commit.2), 0)).2.1.2.docCount = 1 := by
    decide +kernel
  have hwindows : limitsOf (overMeddling.recorded.search ⟨"caller"⟩ firstResource
      ([], (.empty, Index.tagged.commit.2), 0)).2.1 = [1, 2] := by
    decide +kernel
  rw [Outcome.toOption_eq_some] at hresult
  obtain ⟨log, hrun, -, hfound⟩ := search_batches tagged_reachable rfl meddling_evolvesIndex
    ⟨"caller"⟩ firstResource .empty 0 hresult
  obtain ⟨native, ranked, last, htranslate, hranks, -, hlast, hdocs, -, -⟩ := hfound (by decide)
  rw [hrun] at hwindows
  have hwindows : limitsOf log = [1, 2] := hwindows
  obtain rfl : .present Field.uri = native := Except.ok.inj (congrArg Prod.fst htranslate)
  obtain rfl : 2 = last := by
    rw [hwindows] at hlast
    exact Option.some.inj hlast
  have hfront : (Index.tagged.commit.2.acquire.2.execute Index.tagged.commit.2.acquire.1
      (.present Field.uri) 2 .documentOrder .empty).1.toOption.map (·.docs) = some [⟨0⟩, ⟨1⟩] := by
    decide +kernel
  have hranked : ranked.take 2 = [⟨0⟩, ⟨1⟩] := by
    rw [show SearchRequest.sorting firstResource = .documentOrder from rfl] at hranks
    rw [hranks .empty 2] at hfront
    exact Option.some.inj hfront
  exact ⟨log, _, _, hrun, rfl, hcount, hwindows, hdocs.trans hranked⟩

end Searcher

end GuardedSearch
