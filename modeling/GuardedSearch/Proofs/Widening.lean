import GuardedSearch.Proofs.Histories
import GuardedSearch.Search

/-!
# The rounds of a search

Every round asks for a longer front of one ranking and puts what is new of it to the oracle, so
what has been granted is at any time what the oracle grants of the front that has been scanned.
`widen_ok` draws from this what the rounds have found when they end.
-/

namespace GuardedSearch

namespace Oracle

/-- The oracle decides each descriptor on its own, and changes nothing else in a batch. -/
def Decides {σ : Type} (oracle : Oracle σ) (allows : Token → SecurityDescriptor → Bool) : Prop :=
  ∀ token batch state answered state',
    oracle.authorize token batch state = (.ok answered, state') →
      answered = batch.map fun d => { d with authorized := allows token d }

/-- What happens to the index while the oracle answers are operations of the index. -/
def ActsOnIndex (oracle : Oracle (FilterCache × Index)) : Prop :=
  ∀ token batch state, Index.Evolves state.2 (oracle.authorize token batch state).2.2

theorem ofPredicate_decides {σ : Type} (allows : Token → SecurityDescriptor → Bool) :
    (ofPredicate allows : Oracle σ).Decides allows := by
  intro token batch state answered state' h
  exact (Except.ok.inj (Prod.mk.inj h).1).symm

theorem ofPredicate_actsOnIndex (allows : Token → SecurityDescriptor → Bool) :
    (ofPredicate allows).ActsOnIndex :=
  fun _ _ _ => .refl

end Oracle

/-- A descriptor is of its document, and not authorized yet. -/
theorem SecurityDescriptor.ofStored_ok {doc : DocId} {stored : StoredFields}
    {d : SecurityDescriptor} (h : ofStored doc stored = .ok d) :
    d.docId = doc ∧ d.authorized = false := by
  simp only [ofStored] at h
  split at h
  · split at h
    · rw [Outcome.bind_ok] at h
      obtain ⟨n, -, h⟩ := h
      rw [← Outcome.pure_ok.mp h]
      exact ⟨rfl, rfl⟩
    · cases h
    · rw [← Except.ok.inj h]
      exact ⟨rfl, rfl⟩
  · cases h

theorem Searcher.docId_of_recordOf {schema : Schema} {doc : DocId} {stored : StoredFields}
    {r : ResultRecord} (h : recordOf schema doc stored = .ok r) : r.docId = doc := by
  simp only [recordOf, Outcome.bind_ok] at h
  obtain ⟨decoded, -, h⟩ := h
  split at h
  · rw [← Outcome.pure_ok.mp h]
  · cases h

namespace Index

variable {pinned index : Index} {snapshot : SnapshotHandle}

/-- The descriptor of a document, read through a snapshot. -/
def descriptor? (index : Index) (snapshot : SnapshotHandle) (doc : DocId) :
    Option SecurityDescriptor :=
  match index.fetch snapshot doc SecurityDescriptor.selector with
  | .ok stored => (SecurityDescriptor.ofStored doc stored).toOption
  | .error _ => none

/-- Whether a document is granted by what is read of it through a snapshot. -/
def grants (index : Index) (snapshot : SnapshotHandle) (allows : SecurityDescriptor → Bool)
    (doc : DocId) : Bool :=
  (index.descriptor? snapshot doc).any allows

/-- The record of a document, read through a snapshot. -/
def record? (index : Index) (snapshot : SnapshotHandle) (schema : Schema) (select : PropertySelect)
    (doc : DocId) : Option ResultRecord :=
  match index.fetch snapshot doc (Searcher.recordSelector select) with
  | .ok stored => (Searcher.recordOf schema doc stored).toOption
  | .error _ => none

theorem descriptor?_docId {doc : DocId} {d : SecurityDescriptor}
    (h : index.descriptor? snapshot doc = some d) : d.docId = doc := by
  rw [descriptor?] at h
  split at h
  · exact (SecurityDescriptor.ofStored_ok (Outcome.toOption_eq_some.mp h)).1
  · cases h

theorem record?_docId {schema : Schema} {select : PropertySelect} {doc : DocId} {r : ResultRecord}
    (h : index.record? snapshot schema select doc = some r) : r.docId = doc := by
  rw [record?] at h
  split at h
  · exact Searcher.docId_of_recordOf (Outcome.toOption_eq_some.mp h)
  · cases h

section Shown

variable (hrun : pinned.Evolves index) (hid : snapshot.id ≤ pinned.acquired)

include hrun hid

/-- What is fetched later was to be fetched from the beginning. -/
theorem fetch_shown {doc : DocId} {selector : FieldSelector} {stored : StoredFields}
    (h : index.fetch snapshot doc selector = .ok stored) :
    pinned.fetch snapshot doc selector = .ok stored := by
  rw [fetch, Outcome.bind_ok] at h ⊢
  obtain ⟨s, hs, hfetch⟩ := h
  exact ⟨s, hrun.shows hid hs, hfetch⟩

theorem execute_shown {query : NativeQuery} {limit : Nat} {sorting : Sorting}
    {cache cache' : FilterCache} {top : TopDocs}
    (h : index.execute snapshot query limit sorting cache = (.ok top, cache')) :
    pinned.execute snapshot query limit sorting cache = (.ok top, cache') := by
  cases hs : index.segment? snapshot with
  | error e =>
    rw [execute, hs] at h
    cases h
  | ok s =>
    rw [execute, hs] at h
    rw [execute, hrun.shows hid hs]
    exact h

end Shown

end Index

namespace Searcher

variable {s : Searcher (FilterCache × Index)} {pinned : Index} {snapshot : SnapshotHandle}
  {state state' : FilterCache × Index}

-- ---------------------------------------------------------------------------
-- Reads
-- ---------------------------------------------------------------------------

section Reads

variable (hengine : s.engine = Index.engine) (hrun : pinned.Evolves state.2)
  (hid : snapshot.id ≤ pinned.acquired)

include hengine hrun hid

theorem call_fetch_ok {doc : DocId} {selector : FieldSelector} {stored : StoredFields}
    (h : Step.call (s.engine.fetch snapshot doc selector) state = (.ok stored, state')) :
    state' = state ∧ pinned.fetch snapshot doc selector = .ok stored := by
  rw [Step.call_ok, hengine] at h
  have hfetch : state.2.fetch snapshot doc selector = .ok stored := congrArg Prod.fst h
  exact ⟨(congrArg Prod.snd h).symm, Index.fetch_shown hrun hid hfetch⟩

theorem describe_ok {docs : List DocId} {batch : List SecurityDescriptor}
    (h : s.describe snapshot docs state = (.ok batch, state')) :
    state' = state ∧ docs.map (pinned.descriptor? snapshot) = batch.map some := by
  induction docs generalizing batch with
  | nil =>
    obtain ⟨rfl, rfl⟩ := Step.pure_ok.mp h
    exact ⟨rfl, rfl⟩
  | cons doc docs ih =>
    simp only [describe, Step.bind_ok, Step.pure_ok] at h
    obtain ⟨stored, _, hfetch, d, _, hformat, others, _, hothers, rfl, rfl⟩ := h
    obtain ⟨rfl, hstored⟩ := call_fetch_ok hengine hrun hid hfetch
    obtain ⟨hd, rfl⟩ := Step.ofFormat_ok.mp hformat
    obtain ⟨rfl, hrest⟩ := ih hothers
    refine ⟨rfl, ?_⟩
    rw [List.map_cons, List.map_cons, hrest, Index.descriptor?, hstored]
    simp only [hd, Except.toOption]

theorem materializeAll_ok {select : PropertySelect} {docs : List DocId}
    {records : List ResultRecord}
    (h : s.materializeAll snapshot select docs state = (.ok records, state')) :
    state' = state ∧ docs.map (pinned.record? snapshot s.schema select) = records.map some := by
  induction docs generalizing records with
  | nil =>
    obtain ⟨rfl, rfl⟩ := Step.pure_ok.mp h
    exact ⟨rfl, rfl⟩
  | cons doc docs ih =>
    simp only [materializeAll, materialize, Step.bind_ok, Step.pure_ok] at h
    obtain ⟨record, _, ⟨stored, _, hfetch, hrecord⟩, others, _, hothers, rfl, rfl⟩ := h
    obtain ⟨rfl, hstored⟩ := call_fetch_ok hengine hrun hid hfetch
    obtain ⟨hmade, rfl⟩ := Step.ofExcept_ok.mp hrecord
    obtain ⟨rfl, hrest⟩ := ih hothers
    refine ⟨rfl, ?_⟩
    rw [List.map_cons, List.map_cons, hrest, Index.record?, hstored]
    simp only [hmade, Except.toOption]

end Reads

-- ---------------------------------------------------------------------------
-- Authorization
-- ---------------------------------------------------------------------------

theorem marked_docIds {allows : SecurityDescriptor → Bool} {docs : List DocId}
    {batch : List SecurityDescriptor}
    (h : docs.map (pinned.descriptor? snapshot) = batch.map some) :
    ((batch.map fun d => { d with authorized := allows d }).filter (·.authorized)).map (·.docId) =
      docs.filter (pinned.grants snapshot allows) := by
  induction docs generalizing batch with
  | nil =>
    cases batch with
    | nil => rfl
    | cons d batch => cases h
  | cons doc docs ih =>
    cases batch with
    | nil => cases h
    | cons d batch =>
      obtain ⟨hd, hrest⟩ := List.cons.inj h
      have hgrants : pinned.grants snapshot allows doc = allows d := by
        rw [Index.grants, hd, Option.any_some]
      rw [List.map_cons, List.filter_cons, List.filter_cons, hgrants]
      by_cases hallows : allows d = true
      · simp [hallows, ih hrest, Index.descriptor?_docId hd]
      · simp [hallows, ih hrest]

-- ---------------------------------------------------------------------------
-- Fronts of the ranking
-- ---------------------------------------------------------------------------

/-- What is granted of a front, and of what a longer front adds to it, is what is granted of
the longer one. -/
theorem filter_take_append {α : Type} (l : List α) (p : α → Bool) {m n : Nat} (h : m ≤ n) :
    (l.take m).filter p ++ ((l.take n).drop m).filter p = (l.take n).filter p := by
  rw [← List.filter_append]
  congr 1
  have hfront : l.take m = (l.take n).take m := by rw [List.take_take, Nat.min_eq_left h]
  rw [hfront, List.take_append_drop]

/-- When the rounds stop, the front has all that the page needs of the front that ends at the
ceiling. -/
theorem take_filter_of_stop {α : Type} {l : List α} {p : α → Bool} {limit ceiling need : Nat}
    (hlimit : limit ≤ ceiling)
    (hstop : (need ≤ ((l.take limit).filter p).length ∨ l.length = (l.take limit).length) ∨
      ceiling ≤ limit) :
    ((l.take limit).filter p).take need = ((l.take ceiling).filter p).take need := by
  rcases hstop with (hneed | hall) | hceiling
  · rw [← filter_take_append l p hlimit, List.take_append_of_le_length hneed]
  · rw [List.length_take] at hall
    rw [List.take_of_length_le (show l.length ≤ limit by omega),
      List.take_of_length_le (show l.length ≤ ceiling by omega)]
  · rw [Nat.le_antisymm hlimit hceiling]

-- ---------------------------------------------------------------------------
-- Rounds
-- ---------------------------------------------------------------------------

section Rounds

variable {allows : Token → SecurityDescriptor → Bool} {token : Token}
  (hengine : s.engine = Index.engine) (hdecides : s.oracle.Decides allows)
  (hacts : s.oracle.ActsOnIndex) (hid : snapshot.id ≤ pinned.acquired)

include hengine hdecides hacts hid

theorem authorize_ok {docs newly : List DocId} (hrun : pinned.Evolves state.2)
    (h : s.authorize token snapshot docs state = (.ok newly, state')) :
    pinned.Evolves state'.2 ∧ newly = docs.filter (pinned.grants snapshot (allows token)) := by
  rw [authorize] at h
  cases docs with
  | nil =>
    obtain ⟨rfl, rfl⟩ := Step.pure_ok.mp h
    exact ⟨hrun, rfl⟩
  | cons doc docs =>
    simp only [List.isEmpty_cons, Bool.false_eq_true, ↓reduceIte, Step.bind_ok] at h
    obtain ⟨batch, mid, hbatch, answered, after, hanswered, h⟩ := h
    obtain ⟨hmid, hdescribed⟩ := describe_ok hengine hrun hid hbatch
    obtain ⟨rfl, rfl⟩ := Step.pure_ok.mp h
    have hanswered : s.oracle.authorize token batch state = (.ok answered, after) :=
      hmid ▸ hanswered
    refine ⟨?_, ?_⟩
    · have hstep := hacts token batch state
      rw [hanswered] at hstep
      exact hrun.trans hstep
    · rw [hdecides token batch state answered after hanswered]
      exact marked_docIds hdescribed

/-- One round scans the front that ends at its window. -/
theorem round_ok {request : SearchRequest} {query : NativeQuery} {ranked : List DocId}
    (hranked : ∀ cache limit, (pinned.execute snapshot query limit request.sorting cache).1 =
      .ok ⟨ranked.take limit, ranked.length⟩)
    {limit scanned : Nat} (hscanned : scanned ≤ limit) {top : TopDocs} {newly : List DocId}
    {mid : FilterCache × Index} (hrun : pinned.Evolves state.2)
    (htop : Step.call (s.engine.execute snapshot query limit request.sorting) state =
      (.ok top, mid))
    (hnewly : s.authorize token snapshot (top.docs.drop scanned) mid = (.ok newly, state')) :
    top = ⟨ranked.take limit, ranked.length⟩ ∧ pinned.Evolves state'.2 ∧
      (ranked.take scanned).filter (pinned.grants snapshot (allows token)) ++ newly =
        (ranked.take limit).filter (pinned.grants snapshot (allows token)) := by
  rw [Step.call_ok, hengine] at htop
  obtain ⟨cells, index⟩ := state
  have hfound : (index.execute snapshot query limit request.sorting cells).1 = .ok top :=
    congrArg Prod.fst htop
  have hcells : (index.execute snapshot query limit request.sorting cells).2 = mid.1 :=
    congrArg (·.2.1) htop
  have hindex : mid.2 = index := (congrArg (·.2.2) htop).symm
  have hfirst := hranked cells limit
  rw [Index.execute_shown hrun hid (Prod.ext hfound hcells)] at hfirst
  obtain rfl := Except.ok.inj hfirst
  obtain ⟨hrun', rfl⟩ :=
    authorize_ok hengine hdecides hacts hid (by rwa [hindex]) hnewly
  exact ⟨rfl, hrun', filter_take_append ranked _ hscanned⟩

/-- What the rounds have found when they end. What they were granted before they begin is what
is granted of the front that is scanned by then, and this is kept from round to round. -/
theorem widen_ok {request : SearchRequest} {query : NativeQuery} {ranked : List DocId}
    (hranked : ∀ cache limit, (pinned.execute snapshot query limit request.sorting cache).1 =
      .ok ⟨ranked.take limit, ranked.length⟩)
    {limit scanned rounds : Nat} {hpos : 0 < limit} {findings : Findings}
    (hlimit : limit ≤ s.config.ceiling) (hscanned : scanned ≤ limit)
    (hrun : pinned.Evolves state.2)
    (h : s.widen token request snapshot query limit hpos scanned
      ((ranked.take scanned).filter (pinned.grants snapshot (allows token))) rounds state =
        (.ok findings, state')) :
    pinned.Evolves state'.2 ∧ findings.totalHits = ranked.length ∧
      findings.authorized.take (request.need s.config.maxLimit) =
        ((ranked.take s.config.ceiling).filter (pinned.grants snapshot (allows token))).take
          (request.need s.config.maxLimit) := by
  induction limit using nextLimit_induction s.config generalizing scanned rounds state with
  | round limit ih =>
    rw [widen] at h
    simp only [Step.bind_ok] at h
    obtain ⟨top, mid, htop, newly, after, hnewly, h⟩ := h
    obtain ⟨rfl, hrun', hgranted⟩ :=
      round_ok hengine hdecides hacts hid hranked hscanned hrun htop hnewly
    simp only [hgranted] at h
    by_cases hstop : request.need s.config.maxLimit ≤
        ((ranked.take limit).filter (pinned.grants snapshot (allows token))).length ∨
          ranked.length = (ranked.take limit).length
    · rw [if_pos hstop] at h
      obtain ⟨rfl, rfl⟩ := Step.pure_ok.mp h
      exact ⟨hrun', rfl, take_filter_of_stop hlimit (.inl hstop)⟩
    · rw [if_neg hstop] at h
      by_cases hceiling : s.config.ceiling ≤ limit
      · rw [dif_pos hceiling] at h
        obtain ⟨rfl, rfl⟩ := Step.pure_ok.mp h
        exact ⟨hrun', rfl, take_filter_of_stop hlimit (.inr hceiling)⟩
      · rw [dif_neg hceiling] at h
        have hgrows := lt_nextLimit hpos (Nat.lt_of_not_le hceiling)
        have hfront : ranked.take limit = ranked.take (ranked.take limit).length := by
          rw [List.length_take, ← List.take_eq_take_min]
        have hlonger : (ranked.take limit).length ≤ nextLimit s.config limit := by
          rw [List.length_take]
          omega
        -- the next round begins behind what this one returned
        generalize hscanned' : (ranked.take limit).length = scanned' at h hfront hlonger
        rw [hfront] at h
        exact ih hpos (Nat.lt_of_not_le hceiling) (Nat.min_le_left ..) hlonger hrun' h

end Rounds

end Searcher

end GuardedSearch
