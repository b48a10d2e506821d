import GuardedSearch.Proofs.Pages
import GuardedSearch.Proofs.SearchPlans

/-!
# Disclosure

Whatever the engine answers, a search shows only documents that the oracle granted to the caller
in this search, and reads no more of any other document than the oracle is told and translation
looks for. `search_discloses_granted` says so of the log of a search.
-/

namespace GuardedSearch

/-- Descriptors are answered in their places; only what is not the document may change. -/
def Oracle.KeepsDocuments {σ : Type} (oracle : Oracle σ) : Prop :=
  ∀ token batch state answered,
    (oracle.authorize token batch state).1 = .ok answered →
      answered.map (·.docId) = batch.map (·.docId)

-- ---------------------------------------------------------------------------
-- Grants
-- ---------------------------------------------------------------------------

/-- By a call in the log the oracle has marked a descriptor of the document for the caller. -/
def GrantedIn (log : List Event) (token : Token) (doc : DocId) : Prop :=
  ∃ batch answered, .authorize token batch (.ok answered) ∈ log ∧
    ∃ (i : Nat) (d marked : SecurityDescriptor), batch[i]? = some d ∧ d.docId = doc ∧
      answered[i]? = some marked ∧ marked.docId = doc ∧ marked.authorized = true

/-- Wherever the oracle has answered about the document, it left the descriptor as it was. -/
def UntouchedIn (log : List Event) (doc : DocId) : Prop :=
  ∀ token batch answered, .authorize token batch (.ok answered) ∈ log →
    ∀ (i : Nat) (d : SecurityDescriptor), batch[i]? = some d → d.docId = doc →
      answered[i]? = some d

/-- What may be done after the calls of a log. Of a document that is not granted no more is read
than the oracle is told and translation looks for. The oracle is asked for this caller, about
descriptors that are not marked. -/
def Event.Permitted (token : Token) (log : List Event) : Event → Prop
  | fetch _ doc selector _ => selector = SecurityDescriptor.selector ∨
      selector = .ofNames [Field.id] ∨ GrantedIn log token doc
  | authorize asked batch _ => asked = token ∧ ∀ d ∈ batch, d.authorized = false
  | _ => True

/-- A log in which every call was permitted after those before it. -/
inductive Guarded (token : Token) : List Event → Prop
  | nil : Guarded token []
  | snoc {log : List Event} {event : Event} (h : Guarded token log)
      (hevent : event.Permitted token log) : Guarded token (log ++ [event])

variable {σ : Type} {log more : List Event} {token : Token} {doc : DocId}

theorem GrantedIn.append (h : GrantedIn log token doc) : GrantedIn (log ++ more) token doc := by
  obtain ⟨batch, answered, hcall, hmarked⟩ := h
  exact ⟨batch, answered, List.mem_append_left _ hcall, hmarked⟩

theorem Guarded.permitted (h : Guarded token log) {before after : List Event} {event : Event}
    (hlog : log = before ++ event :: after) : event.Permitted token before := by
  induction h generalizing after with
  | nil => simp at hlog
  | @snoc log last h hlast ih =>
    rcases List.eq_nil_or_concat after with rfl | ⟨rest, e, rfl⟩
    · obtain ⟨rfl, hevent⟩ := List.append_inj' hlog rfl
      rwa [← List.singleton_inj.mp hevent]
    · rw [List.concat_eq_append, ← List.cons_append, ← List.append_assoc] at hlog
      exact ih (List.append_inj' hlog rfl).1

/-- The descriptors of a batch are unmarked when the oracle is asked, so a document that it
leaves untouched is not granted. -/
theorem Guarded.not_granted (h : Guarded token log) (huntouched : UntouchedIn log doc) :
    ¬ GrantedIn log token doc := by
  rintro ⟨batch, answered, hcall, i, d, marked, hd, hdoc, hmarked, -, hauthorized⟩
  obtain ⟨before, after, hlog⟩ := List.append_of_mem hcall
  obtain ⟨-, hunmarked⟩ := h.permitted hlog
  have hsame := huntouched token batch answered hcall i d hd hdoc
  rw [hmarked, Option.some.injEq] at hsame
  rw [hsame, hunmarked d (List.mem_of_getElem? hd)] at hauthorized
  cases hauthorized

/-- What the oracle marks in its answer it grants. -/
theorem grantedIn_of_marked {batch answered : List SecurityDescriptor}
    (hkeeps : answered.map (·.docId) = batch.map (·.docId))
    (hdoc : doc ∈ (answered.filter (·.authorized)).map (·.docId)) :
    GrantedIn (log ++ [.authorize token batch (.ok answered)]) token doc := by
  obtain ⟨marked, hmarked, rfl⟩ := List.mem_map.mp hdoc
  obtain ⟨hmem, hauthorized⟩ := List.mem_filter.mp hmarked
  obtain ⟨i, hi⟩ := List.getElem?_of_mem hmem
  have hsame := congrArg (·[i]?) hkeeps
  simp only [List.getElem?_map, hi, Option.map_some] at hsame
  obtain ⟨d, hd, hdocId⟩ := Option.map_eq_some_iff.mp hsame.symm
  exact ⟨batch, answered, by simp, i, d, marked, hd, hdocId, hi, rfl, hauthorized⟩

-- ---------------------------------------------------------------------------
-- Translation
-- ---------------------------------------------------------------------------

namespace Query

variable (schema : Schema) (engine : Engine σ) (snapshot : SnapshotHandle)

theorem resolveId_guarded (uri : String) :
    Triple (Guarded token) (resolveId engine.recorded snapshot uri) log fun _ _ => True := by
  apply Triple.call_bind (fun _ h => h.snoc trivial)
  intro found
  cases found with
  | none => exact Triple.pure trivial
  | some doc =>
    apply Triple.call_bind (fun _ h => h.snoc (.inr (.inl rfl)))
    intro stored
    cases (stored.get? Field.id).bind (·.head?) with
    | none => exact Triple.pure trivial
    | some value =>
      apply Triple.ofExcept_bind
      intro id _
      cases id <;> exact Triple.pure trivial

theorem nativeSubtree_guarded (uri : String) (inverted : Bool) :
    Triple (Guarded token) (nativeSubtree engine.recorded snapshot uri inverted) log
      fun _ _ => True := by
  refine Triple.bind (Q := fun _ _ => True) ?_ fun _ _ _ => Triple.pure trivial
  apply (resolveId_guarded engine snapshot (normalUri uri)).bind
  intro id _ _
  cases id <;> exact Triple.pure trivial

mutual

theorem translate_guarded : (query : Query) → {log : List Event} →
    Triple (Guarded token) (query.translate schema engine.recorded snapshot) log fun _ _ => True
  | .term .., _ | .startsWith .., _ | .range .., _ | .wildcard .., _ | .uriDepth _, _
  | .resourceType .., _ | .membership .., _ => Triple.ofExcept fun _ _ => trivial
  | .present _, _ => Triple.pure trivial
  | .subtree uri inverted, _ => nativeSubtree_guarded engine snapshot uri inverted
  | .conj clauses, _ => (translateAll_guarded clauses).bind fun _ _ _ => Triple.pure trivial
  | .disj clauses, _ => (translateAll_guarded clauses).bind fun _ _ _ => Triple.pure trivial

theorem translateAll_guarded : (clauses : List Query) → {log : List Event} →
    Triple (Guarded token) (translateAll schema engine.recorded snapshot clauses) log
      fun _ _ => True
  | [], _ => Triple.pure trivial
  | query :: rest, _ =>
    (translate_guarded query).bind fun _ _ _ =>
      (translateAll_guarded rest).bind fun _ _ _ => Triple.pure trivial

end

end Query

-- ---------------------------------------------------------------------------
-- Search
-- ---------------------------------------------------------------------------

namespace Searcher

variable {s : Searcher σ} {request : SearchRequest} {snapshot : SnapshotHandle}

theorem describe_guarded (docs : List DocId) :
    Triple (Guarded token) (s.recorded.describe snapshot docs) log
      fun batch _ => ∀ d ∈ batch, d.authorized = false := by
  induction docs generalizing log with
  | nil => exact Triple.pure (by simp)
  | cons doc docs ih =>
    apply Triple.call_bind (fun _ h => h.snoc (.inl rfl))
    intro stored
    apply Triple.ofExcept_bind
    intro d hd
    obtain ⟨-, hunmarked⟩ := SecurityDescriptor.ofStored_ok (Outcome.mapError_ok.mp hd)
    apply ih.bind
    intro others _ hothers
    exact Triple.pure (List.forall_mem_cons.mpr ⟨hunmarked, hothers⟩)

section Granted

variable (hkeeps : s.oracle.KeepsDocuments)

include hkeeps

theorem authorize_guarded (docs : List DocId) :
    Triple (Guarded token) (s.recorded.authorize token snapshot docs) log
      fun newly log => ∀ doc ∈ newly, GrantedIn log token doc := by
  rw [authorize]
  cases docs with
  | nil => exact Triple.pure (by simp)
  | cons doc docs =>
    apply (describe_guarded _).bind
    intro batch _ hbatch
    apply Triple.asked_bind (fun _ h => h.snoc ⟨rfl, hbatch⟩)
    intro answered state hanswered
    apply Triple.pure
    intro doc hdoc
    exact grantedIn_of_marked (hkeeps token batch state answered hanswered) hdoc

theorem widen_guarded {query : NativeQuery} {limit scanned rounds : Nat} {hpos : 0 < limit}
    {granted : List DocId} (hgranted : ∀ doc ∈ granted, GrantedIn log token doc) :
    Triple (Guarded token)
      (s.recorded.widen token request snapshot query limit hpos scanned granted rounds) log
      fun findings log => ∀ doc ∈ findings.authorized, GrantedIn log token doc := by
  induction limit using nextLimit_induction s.config
    generalizing scanned rounds granted log with
  | round limit ih =>
    rw [widen]
    apply Triple.call_bind (fun _ h => h.snoc trivial)
    intro top
    apply (authorize_guarded hkeeps _).bind
    intro newly events hnewly
    have hall : ∀ doc ∈ granted ++ newly,
        GrantedIn (log ++ [.execute snapshot query limit request.sorting (.ok top)] ++ events)
          token doc := by
      intro doc hdoc
      rcases List.mem_append.mp hdoc with hdoc | hdoc
      · exact (hgranted doc hdoc).append.append
      · exact hnewly doc hdoc
    refine Triple.dite (fun _ => Triple.pure hall) fun _ => ?_
    refine Triple.dite (fun _ => Triple.pure hall) fun hceiling => ?_
    exact ih hpos (Nat.lt_of_not_le hceiling) hall

end Granted

theorem materializeAll_guarded {select : PropertySelect} {docs : List DocId}
    (hdocs : ∀ doc ∈ docs, GrantedIn log token doc) :
    Triple (Guarded token) (s.recorded.materializeAll snapshot select docs) log
      fun records log => ∀ record ∈ records, GrantedIn log token record.docId := by
  induction docs generalizing log with
  | nil => exact Triple.pure (by simp)
  | cons doc docs ih =>
    obtain ⟨hdoc, hrest⟩ := List.forall_mem_cons.mp hdocs
    refine Triple.bind (Q := fun record log => GrantedIn log token record.docId) ?_ ?_
    · apply Triple.call_bind (fun _ h => h.snoc (.inr (.inr hdoc)))
      intro stored
      apply Triple.ofExcept
      intro record hrecord
      rw [docId_of_recordOf hrecord]
      exact hdoc.append
    · intro record _ hrecord
      apply (ih fun d hd => (hrest d hd).append).bind
      intro others _ hothers
      exact Triple.pure (List.forall_mem_cons.mpr ⟨hrecord.append, hothers⟩)

theorem search_guarded (hkeeps : s.oracle.KeepsDocuments) (token : Token)
    (request : SearchRequest) :
    Triple (Guarded token) (s.recorded.search token request) []
      fun result log => ∀ record ∈ result.records, GrantedIn log token record.docId := by
  refine Triple.dite (fun _ => Triple.pure (by simp [ResultSet.empty])) fun _ => ?_
  refine Triple.withSnapshot (fun _ h => h.snoc trivial) (fun _ _ h => h.snoc trivial) ?_
  intro snapshot
  apply (Query.translate_guarded s.schema s.engine snapshot request.query).bind
  intro query _ _
  apply (widen_guarded hkeeps (List.forall_mem_nil _)).bind
  intro findings _ hfindings
  refine (materializeAll_guarded ?_).bind ?_
  · intro doc hdoc
    exact hfindings doc (List.mem_of_mem_take (List.mem_of_mem_drop hdoc))
  · intro records _ hrecords
    apply Triple.pure
    intro record hrecord
    exact (hrecords record hrecord).append

/-- A search discloses only documents that are granted in it, whatever the engine answers and
however the oracle comes to mark descriptors. Its log tells of calls of the oracle for this
caller, about descriptors that are not marked. Every record of its result is of a document that
was granted by such a call, and not of one that the oracle left untouched. Whether the search
succeeds or not, it has read no more of a document that was not granted before than the oracle
is told and translation looks for. -/
theorem search_discloses_granted (hkeeps : s.oracle.KeepsDocuments) (token : Token)
    (request : SearchRequest) (state : σ) : ∃ log,
      s.recorded.search token request ([], state) =
        ((s.search token request state).1, log, (s.search token request state).2) ∧
      (∀ asked batch answer, .authorize asked batch answer ∈ log →
        asked = token ∧ ∀ d ∈ batch, d.authorized = false) ∧
      (∀ result, (s.search token request state).1 = .ok result → ∀ record ∈ result.records,
        GrantedIn log token record.docId ∧ ¬ UntouchedIn log record.docId) ∧
      ∀ before after snapshot doc selector answer,
        log = before ++ .fetch snapshot doc selector answer :: after →
          selector ≠ SecurityDescriptor.selector → selector ≠ .ofNames [Field.id] →
            GrantedIn before token doc := by
  obtain ⟨log, hmirrors⟩ := s.search_mirrors token request state
  have hrun := hmirrors []
  obtain ⟨events, hadded, hguarded, hgranted⟩ := search_guarded hkeeps token request .nil state
  rw [hrun] at hadded hgranted
  simp only [List.nil_append] at hrun hadded hguarded hgranted
  subst hadded
  refine ⟨log, hrun, ?_, ?_, ?_⟩
  · intro asked batch answer hcall
    obtain ⟨before, after, hlog⟩ := List.append_of_mem hcall
    exact hguarded.permitted hlog
  · intro result hresult record hrecord
    have hrecordGranted := hgranted result hresult record hrecord
    exact ⟨hrecordGranted, fun huntouched => hguarded.not_granted huntouched hrecordGranted⟩
  · intro before after snapshot doc selector answer hlog hselector hid
    rcases hguarded.permitted hlog with h | h | h
    · exact absurd h hselector
    · exact absurd h hid
    · exact h

/-- An engine that lists one document as often as it may, and says that there is none. -/
def repeating : Engine Nat where
  acquire := return .ok ⟨1⟩
  release _ := return ()
  execute _ _ limit _ := return .ok ⟨List.replicate limit ⟨7⟩, 0⟩
  fetch _ _ _ := return .ok (Table.ofList [(Field.uri, [.text "/a"])])
  lookup _ _ _ := return .ok none
  enumerate _ _ _ := return .ok []

/-- An oracle that counts its calls, and marks descriptors from the second on. -/
def hesitant : Oracle Nat where
  authorize _ batch calls :=
    (.ok (batch.map fun d => { d with authorized := d.authorized || calls != 0 }), calls + 1)

/-- A searcher whose windows hold two documents. -/
def overHesitant : Searcher Nat := ⟨.initial, repeating, hesitant, ⟨2, 2, 60000, 1⟩, by decide⟩

theorem overHesitant_keepsDocuments : overHesitant.oracle.KeepsDocuments := by
  intro token batch calls answered h
  obtain rfl := Except.ok.inj h
  rw [List.map_map]
  rfl

/-- The document is denied in the first round and granted in the second. -/
theorem search_discloses_granted_second_round : ∃ log state result,
    overHesitant.recorded.search ⟨"caller"⟩ firstResource ([], 0) = (.ok result, log, state) ∧
      result.rounds = 2 ∧ result.records.map (·.docId) = [⟨7⟩] ∧
      GrantedIn log ⟨"caller"⟩ ⟨7⟩ ∧ ¬ UntouchedIn log ⟨7⟩ := by
  have hresult : (overHesitant.search ⟨"caller"⟩ firstResource 0).1.toOption =
      some ⟨[⟨⟨7⟩, "/a", ∅⟩], 0, 2, 0⟩ := by
    decide +kernel
  rw [Outcome.toOption_eq_some] at hresult
  obtain ⟨log, hrun, -, hgranted, -⟩ :=
    search_discloses_granted overHesitant_keepsDocuments ⟨"caller"⟩ firstResource 0
  rw [hresult] at hrun hgranted
  exact ⟨log, _, _, hrun, rfl, rfl, hgranted _ rfl _ (List.mem_singleton_self _)⟩

end Searcher

end GuardedSearch
