import GuardedSearch.Proofs.Disclosure
import GuardedSearch.Proofs.Releases

/-!
# What is stored of denied documents

A search fetches of a document that is not granted only what the oracle is told and translation
looks for. Two engines that differ in nothing but the rest of such documents therefore lead a
search through the same calls (`Plan.run_agrees`), and `search_ignores_denied` says that it ends
with the same answer over both.
-/

namespace GuardedSearch

variable {σ τ : Type} {α : Type}

theorem Oracle.ofPredicate_keepsDocuments (allows : Token → SecurityDescriptor → Bool) :
    (ofPredicate allows : Oracle σ).KeepsDocuments := by
  rintro token batch state _ ⟨⟩
  rw [List.map_map]
  rfl

-- ---------------------------------------------------------------------------
-- Engines that agree
-- ---------------------------------------------------------------------------

/-- In related states two calls give the same answer, and they leave related states. -/
def SameAnswers (R : σ → τ → Prop) (call : StateM σ α) (other : StateM τ α) : Prop :=
  ∀ state state', R state state' →
    (call state).1 = (other state').1 ∧ R (call state).2 (other state').2

theorem SameAnswers.refl (call : StateM σ α) : SameAnswers Eq call call := by
  rintro state _ rfl
  exact ⟨rfl, rfl⟩

/-- Two engines agree but for documents that are not granted. Of those they may tell, or fail to
tell, different things, except to the oracle and to translation. -/
structure Engine.Agrees (R : σ → τ → Prop) (granted : DocId → Prop) (engine : Engine σ)
    (other : Engine τ) : Prop where
  acquire : SameAnswers R engine.acquire other.acquire
  execute (snapshot : SnapshotHandle) (query : NativeQuery) (limit : Nat) (sorting : Sorting) :
    SameAnswers R (engine.execute snapshot query limit sorting)
      (other.execute snapshot query limit sorting)
  lookup (snapshot : SnapshotHandle) (field term : String) :
    SameAnswers R (engine.lookup snapshot field term) (other.lookup snapshot field term)
  fetch (snapshot : SnapshotHandle) (doc : DocId) (selector : FieldSelector)
    (h : selector = SecurityDescriptor.selector ∨ selector = .ofNames [Field.id] ∨ granted doc) :
    SameAnswers R (engine.fetch snapshot doc selector) (other.fetch snapshot doc selector)

/-- A call that fetches of documents that are not granted only what the oracle is told and
translation looks for. -/
def Event.Within (granted : DocId → Prop) : Event → Prop
  | fetch _ doc selector _ =>
    selector = SecurityDescriptor.selector ∨ selector = .ofNames [Field.id] ∨ granted doc
  | _ => True

theorem Event.Permitted.within {token : Token} {log : List Event} {granted : DocId → Prop}
    {e : Event} (h : e.Permitted token log)
    (hgranted : ∀ doc, GrantedIn log token doc → granted doc) : e.Within granted := by
  cases e with
  | fetch snapshot doc selector answer => exact h.imp_right fun h => h.imp_right (hgranted doc)
  | _ => trivial

-- ---------------------------------------------------------------------------
-- Plans
-- ---------------------------------------------------------------------------

section Agrees

variable {R : σ → τ → Prop} {granted : DocId → Prop} {s : Searcher σ} {t : Searcher τ}
  (hagrees : s.engine.Agrees R granted t.engine)
  (horacle : ∀ token batch,
    SameAnswers R (s.oracle.authorize token batch) (t.oracle.authorize token batch))

include hagrees horacle

theorem Act.perform_agrees (act : Act α) {state : σ} {state' : τ}
    (hwithin : ∀ e ∈ callsOf [act.taken s state], e.Within granted) (hR : R state state') :
    (act.perform s state).1 = (act.perform t state').1 ∧
      R (act.perform s state).2 (act.perform t state').2 := by
  have called {β : Type} {call : StateM σ (Except EngineError β)}
      {other : StateM τ (Except EngineError β)} (h : SameAnswers R call other) :
      (Step.call call state).1 = (Step.call other state').1 ∧
        R (Step.call call state).2 (Step.call other state').2 := by
    obtain ⟨hsame, hrelated⟩ := h state state' hR
    exact ⟨congrArg (Except.mapError Error.queryExecution) hsame, hrelated⟩
  cases act with
  | lookup snapshot field term => exact called (hagrees.lookup snapshot field term)
  | fetch snapshot doc selector =>
    exact called (hagrees.fetch snapshot doc selector (hwithin _ (List.mem_singleton_self _)))
  | execute snapshot query limit sorting =>
    exact called (hagrees.execute snapshot query limit sorting)
  | authorize token batch => exact horacle token batch state state' hR
  | read outcome => exact ⟨rfl, hR⟩

/-- A plan whose calls fetch no more than is granted ends over one engine as over the other. -/
theorem Plan.run_agrees (p : Plan α) {state : σ} {state' : τ}
    (hwithin : ∀ e ∈ callsOf (p.steps s state), e.Within granted) (hR : R state state') :
    (p.run s state).1 = (p.run t state').1 := by
  induction p generalizing state state' with
  | done a => rfl
  | step act next ih =>
    rw [steps, ← List.singleton_append, callsOf_append] at hwithin
    obtain ⟨hsame, hrelated⟩ := act.perform_agrees hagrees horacle
      (fun e he => hwithin e (List.mem_append_left _ he)) hR
    rw [run, run, Step.bind_run, Step.bind_run]
    rcases hs : act.perform s state with ⟨outcome, mid⟩
    rcases ht : act.perform t state' with ⟨outcome', mid'⟩
    rw [hs, ht] at hsame hrelated
    obtain rfl : outcome = outcome' := hsame
    cases outcome with
    | error e => rfl
    | ok b =>
      rw [hs] at hwithin
      exact ih b (fun e he => hwithin e (List.mem_append_right _ he)) hrelated

end Agrees

-- ---------------------------------------------------------------------------
-- Search
-- ---------------------------------------------------------------------------

namespace Searcher

/-- The oracle grants the document to the caller in this search. -/
def Grants (s : Searcher σ) (token : Token) (request : SearchRequest) (state : σ) (doc : DocId) :
    Prop :=
  GrantedIn (s.recorded.search token request ([], state)).2.1 token doc

/-- A searcher whose oracle decides each descriptor on its own. -/
def deciding (schema : Schema) (allows : Token → SecurityDescriptor → Bool)
    {config : SearchConfig} (hconfig : config.IsValid) (engine : Engine σ) : Searcher σ :=
  ⟨schema, engine, .ofPredicate allows, config, hconfig⟩

/-- The calls of a search fetch no more than is granted in it. -/
theorem search_within {s : Searcher σ} (hkeeps : s.oracle.KeepsDocuments) (token : Token)
    (request : SearchRequest) (state : σ) :
    ∀ e ∈ callsOf (s.steps token request state), e.Within (s.Grants token request state) := by
  intro e he
  obtain ⟨events, hadded, hguarded, -⟩ := search_guarded hkeeps token request .nil state
  have hlog : (s.recorded.search token request ([], state)).2.1 =
      callsOf (s.steps token request state) ++ s.releases request state := by
    rw [search_recorded]
    rfl
  rw [← hadded, hlog] at hguarded
  obtain ⟨before, after, hcalls⟩ := List.append_of_mem (List.mem_append_left _ he)
  refine (hguarded.permitted hcalls).within fun doc hdoc => ?_
  rw [Grants, hlog, hcalls]
  exact hdoc.append

/-- What is stored of denied documents does not influence a search. Over two engines that answer
alike, but for what neither the oracle is told nor translation looks for of documents that are
not granted, a search ends with the same records and counts, or with the same error. -/
theorem search_ignores_denied {schema : Schema} {allows : Token → SecurityDescriptor → Bool}
    {config : SearchConfig} {hconfig : config.IsValid} {engine : Engine σ} {other : Engine τ}
    {R : σ → τ → Prop} {token : Token} {request : SearchRequest} {state : σ} {state' : τ}
    (hagrees : engine.Agrees R
      ((deciding schema allows hconfig engine).Grants token request state) other)
    (hR : R state state') :
    ((deciding schema allows hconfig engine).search token request state).1 =
      ((deciding schema allows hconfig other).search token request state').1 := by
  have hwithin := search_within (s := deciding schema allows hconfig engine)
    (Oracle.ofPredicate_keepsDocuments allows) token request state
  obtain ⟨hacquire, hrelated⟩ := hagrees.acquire state state' hR
  obtain ⟨hneed, hsearch, -⟩ | ⟨hneed, e, mid, herror, hsearch, -⟩ |
    ⟨hneed, snapshot, mid, hok, hsearch, hsteps, -⟩ :=
      (deciding schema allows hconfig engine).search_cases token request state
  · rw [hsearch, search_of_need_eq_zero (deciding schema allows hconfig other) token hneed]
  · change engine.acquire state = (.error e, mid) at herror
    rw [herror] at hacquire
    rw [hsearch, search_of_acquire_error (s := deciding schema allows hconfig other) hneed
      (Prod.ext hacquire.symm rfl)]
  · change engine.acquire state = (.ok snapshot, mid) at hok
    rw [hok] at hacquire hrelated
    rw [hsearch, search_of_acquire_ok (s := deciding schema allows hconfig other) hneed
      (Prod.ext hacquire.symm rfl)]
    refine Plan.run_agrees hagrees (fun _ _ _ _ h => ⟨rfl, h⟩) _ (fun e he => hwithin e ?_) hrelated
    rw [hsteps, ← List.singleton_append, callsOf_append]
    exact List.mem_append_right _ he

/-- The index, but that it fails to tell of one document more than the oracle is told and
translation looks for. -/
def withholding (hidden : DocId) : Engine (FilterCache × Index) :=
  { Index.engine with
    fetch := fun snapshot doc selector =>
      if doc = hidden ∧ selector ≠ SecurityDescriptor.selector ∧ selector ≠ .ofNames [Field.id] then
        return .error (.reported "withheld")
      else Index.engine.fetch snapshot doc selector }

theorem withholding_agrees {granted : DocId → Prop} {hidden : DocId} (h : ¬ granted hidden) :
    Index.engine.Agrees Eq granted (withholding hidden) where
  acquire := .refl _
  execute _ _ _ _ := .refl _
  lookup _ _ _ := .refl _
  fetch snapshot doc selector hwithin := by
    have hshown : ¬ (doc = hidden ∧ selector ≠ SecurityDescriptor.selector ∧
        selector ≠ .ofNames [Field.id]) := by
      rintro ⟨rfl, hselector, hid⟩
      rcases hwithin with hwithin | hwithin | hwithin
      · exact hselector hwithin
      · exact hid hwithin
      · exact h hwithin
    simp only [withholding, if_neg hshown]
    exact .refl _

/-- The index as callers see it who may see one uri. -/
def seesOneOver (engine : Engine (FilterCache × Index)) : Searcher (FilterCache × Index) :=
  deciding .initial (fun _ d => d.uri == "/b") narrow_isValid engine

/-- The first of all resources, with everything that is stored of it. -/
def firstInFull : SearchRequest := { firstResource with select := .all }

/-- The documents that the answer of a call marks. -/
def marked : Event → List DocId
  | .authorize _ _ (.ok answered) => (answered.filter (·.authorized)).map (·.docId)
  | _ => []

theorem mem_marked_of_grantedIn {log : List Event} {token : Token} {doc : DocId}
    (h : GrantedIn log token doc) : doc ∈ log.flatMap marked := by
  obtain ⟨batch, answered, hcall, i, d, found, -, -, hfound, rfl, hauthorized⟩ := h
  refine List.mem_flatMap.mpr ⟨_, hcall, List.mem_map_of_mem ?_⟩
  exact List.mem_filter.mpr ⟨List.mem_of_getElem? hfound, hauthorized⟩

/-- The content of the first document is withheld. It is denied in the first round, and the
second round finds what is granted. -/
theorem search_ignores_denied_withheld : ∃ result,
    ((seesOneOver Index.engine).search ⟨"caller"⟩ firstInFull (.empty, Index.tagged.commit.2)).1 =
        .ok result ∧
      ((seesOneOver (withholding ⟨0⟩)).search ⟨"caller"⟩ firstInFull
        (.empty, Index.tagged.commit.2)).1 = .ok result ∧
      result.rounds = 2 ∧ result.records.map (·.uri) = ["/b"] := by
  have hmarked : (((seesOneOver Index.engine).recorded.search ⟨"caller"⟩ firstInFull
      ([], (.empty, Index.tagged.commit.2))).2.1).flatMap marked = [⟨1⟩] := by
    decide +kernel
  have hdenied : ¬ (seesOneOver Index.engine).Grants ⟨"caller"⟩ firstInFull
      (.empty, Index.tagged.commit.2) ⟨0⟩ := by
    intro h
    have := mem_marked_of_grantedIn h
    rw [hmarked] at this
    simp at this
  have hfound : ((seesOneOver Index.engine).search ⟨"caller"⟩ firstInFull
      (.empty, Index.tagged.commit.2)).1.toOption.map
        (fun r => (r.rounds, r.records.map (·.uri))) = some (2, ["/b"]) := by
    decide +kernel
  obtain ⟨result, hresult, hshown⟩ := Option.map_eq_some_iff.mp hfound
  rw [Outcome.toOption_eq_some] at hresult
  have hsame := search_ignores_denied (withholding_agrees hdenied) rfl
  exact ⟨result, hresult, hsame.symm.trans hresult, congrArg Prod.fst hshown,
    congrArg Prod.snd hshown⟩

end Searcher

end GuardedSearch
