import GuardedSearch.Proofs.Recording

/-!
# Plans

A plan tells step by step what is done: which calls are made, and what is read of the answers.
Every step may fail, and a step that fails is the last one (`steps_of_ok`, `steps_of_error`).
When a plan is carried out over a recorded engine, the log has the calls of its steps
(`run_recorded`).
-/

namespace GuardedSearch

variable {σ : Type} {α β : Type}

-- ---------------------------------------------------------------------------
-- Steps
-- ---------------------------------------------------------------------------

theorem Step.call_run (answer : StateM σ (Except EngineError α)) (state : σ) :
    call answer state = ((answer state).1.mapError .queryExecution, (answer state).2) := rfl

theorem Step.ofExcept_bind (r : Except Error α) (f : α → Except Error β) :
    (ofExcept (r >>= f) : Step σ β) = ofExcept r >>= fun a => ofExcept (f a) := by
  cases r <;> rfl

/-- A step that may fail: a call of the engine or of the oracle, or a reading of what is there. -/
inductive Act : Type → Type 1
  | lookup (snapshot : SnapshotHandle) (field term : String) : Act (Option DocId)
  | fetch (snapshot : SnapshotHandle) (doc : DocId) (selector : FieldSelector) : Act StoredFields
  | execute (snapshot : SnapshotHandle) (query : NativeQuery) (limit : Nat) (sorting : Sorting) :
    Act TopDocs
  | authorize (token : Token) (batch : List SecurityDescriptor) : Act (List SecurityDescriptor)
  | read {α : Type} (outcome : Except Error α) : Act α

/-- The error of a result that is one. -/
def failureOf {ε : Type} (wrap : ε → Error) : Except ε α → Option Error
  | .ok _ => none
  | .error e => some (wrap e)

/-- The error that a call ends a search with if it fails; an engine's error is its cause. -/
def Event.failure? : Event → Option Error
  | acquire answer => failureOf .queryExecution answer
  | release _ => none
  | execute _ _ _ _ answer => failureOf .queryExecution answer
  | fetch _ _ _ answer => failureOf .queryExecution answer
  | lookup _ _ _ answer => failureOf .queryExecution answer
  | enumerate _ _ _ answer => failureOf .queryExecution answer
  | authorize _ _ answer => failureOf id answer

/-- A step that has been taken: a call with its answer, or a reading, with its error if it
failed. -/
inductive Taken where
  | call (event : Event)
  | reading (failure : Option Error)

namespace Taken

def failure? : Taken → Option Error
  | call event => event.failure?
  | reading failure => failure

def event? : Taken → Option Event
  | call event => some event
  | reading _ => none

end Taken

def callsOf (steps : List Taken) : List Event := steps.filterMap Taken.event?

@[simp]
theorem callsOf_append (steps more : List Taken) :
    callsOf (steps ++ more) = callsOf steps ++ callsOf more := List.filterMap_append

namespace Act

def perform (s : Searcher σ) : Act α → Step σ α
  | lookup snapshot field term => Step.call (s.engine.lookup snapshot field term)
  | fetch snapshot doc selector => Step.call (s.engine.fetch snapshot doc selector)
  | execute snapshot query limit sorting =>
    Step.call (s.engine.execute snapshot query limit sorting)
  | authorize token batch => ExceptT.mk (s.oracle.authorize token batch)
  | read outcome => Step.ofExcept outcome

/-- The step as it is taken in a state. -/
def taken (s : Searcher σ) : Act α → σ → Taken
  | lookup snapshot field term, state =>
    .call (.lookup snapshot field term (s.engine.lookup snapshot field term state).1)
  | fetch snapshot doc selector, state =>
    .call (.fetch snapshot doc selector (s.engine.fetch snapshot doc selector state).1)
  | execute snapshot query limit sorting, state =>
    .call (.execute snapshot query limit sorting
      (s.engine.execute snapshot query limit sorting state).1)
  | authorize token batch, state =>
    .call (.authorize token batch (s.oracle.authorize token batch state).1)
  | read outcome, _ => .reading (failureOf id outcome)

theorem failureOf_mapError {ε : Type} (wrap : ε → Error) (r : Except ε α) :
    failureOf id (r.mapError wrap) = failureOf wrap r := by
  cases r <;> rfl

theorem taken_failure? (s : Searcher σ) (act : Act α) (state : σ) :
    (act.taken s state).failure? = failureOf id (act.perform s state).1 := by
  cases act with
  | authorize | read => rfl
  | _ => exact (failureOf_mapError _ _).symm

/-- A step that is recorded ends as it does otherwise, and its call is in the log. -/
theorem perform_recorded (s : Searcher σ) (act : Act α) (log : List Event) (state : σ) :
    act.perform s.recorded (log, state) =
      ((act.perform s state).1, log ++ callsOf [act.taken s state], (act.perform s state).2) := by
  cases act with
  | read outcome =>
    change (outcome, log, state) = (outcome, log ++ [], state)
    rw [List.append_nil]
  | _ => rfl

end Act

-- ---------------------------------------------------------------------------
-- Plans
-- ---------------------------------------------------------------------------

/-- What is done, step by step; what comes next depends on what the step gives. -/
inductive Plan (α : Type) : Type 1
  | done (a : α)
  | step {β : Type} (act : Act β) (next : β → Plan α)

namespace Plan

def bind : Plan α → (α → Plan β) → Plan β
  | done a, f => f a
  | step act next, f => step act fun b => (next b).bind f

instance : Monad Plan where
  pure := done
  bind := bind

def ofAct (act : Act α) : Plan α := step act done

def run (s : Searcher σ) : Plan α → Step σ α
  | done a => pure a
  | step act next => act.perform s >>= fun b => (next b).run s

/-- The steps that are taken from a state on, up to the first that fails. -/
def steps (s : Searcher σ) : Plan α → σ → List Taken
  | done _, _ => []
  | step act next, state => act.taken s state ::
    match act.perform s state with
    | (.ok b, state) => (next b).steps s state
    | (.error _, _) => []

/-- Readings of all, one by one. -/
def readAll (f : α → Except Error β) : List α → Plan (List β)
  | [] => return []
  | a :: rest => do
    let b ← .ofAct (.read (f a))
    let others ← readAll f rest
    return b :: others

variable {s : Searcher σ} {state state' : σ}

@[simp]
theorem run_pure (a : α) : (pure a : Plan α).run s = pure a := rfl

@[simp]
theorem run_ofAct (act : Act α) : (ofAct act).run s = act.perform s := bind_pure _

@[simp]
theorem run_bind (p : Plan α) (f : α → Plan β) :
    (p >>= f).run s = p.run s >>= fun a => (f a).run s := by
  induction p with
  | done a => exact (pure_bind a fun a => (f a).run s).symm
  | step act next ih =>
    change (act.perform s >>= fun b => (next b >>= f).run s) = _
    simp only [ih, run, bind_assoc]

theorem run_readAll (f : α → Except Error β) (l : List α) :
    (readAll f l).run s = Step.ofExcept (l.mapM f) := by
  induction l with
  | nil => rfl
  | cons a rest ih =>
    simp only [readAll, run_bind, run_ofAct, ih, List.mapM_cons, Step.ofExcept_bind]
    rfl

/-- Each step of a plan that is carried out to its end succeeds. -/
theorem steps_of_ok {p : Plan α} {a : α} (h : p.run s state = (.ok a, state')) :
    ∀ t ∈ p.steps s state, t.failure? = none := by
  induction p generalizing state with
  | done => simp [steps]
  | step act next ih =>
    obtain ⟨b, mid, hact, hnext⟩ := Step.bind_ok.mp h
    simp only [steps, hact, List.forall_mem_cons]
    exact ⟨by rw [Act.taken_failure?, hact]; rfl, ih b hnext⟩

/-- A plan that ends with an error has taken one step that failed, with this error, as its last. -/
theorem steps_of_error {p : Plan α} {e : Error} (h : p.run s state = (.error e, state')) :
    ∃ before last, p.steps s state = before ++ [last] ∧ (∀ t ∈ before, t.failure? = none) ∧
      last.failure? = some e := by
  induction p generalizing state with
  | done => cases h
  | step act next ih =>
    rw [run, Step.bind_run] at h
    rcases hact : act.perform s state with ⟨outcome, mid⟩
    rw [hact] at h
    cases outcome with
    | ok b =>
      obtain ⟨before, last, hsteps, hbefore, hlast⟩ := ih b h
      refine ⟨act.taken s state :: before, last, ?_, ?_, hlast⟩
      · simp only [steps, hact, hsteps, List.cons_append]
      · refine List.forall_mem_cons.mpr ⟨?_, hbefore⟩
        rw [Act.taken_failure?, hact]
        rfl
    | error e' =>
      obtain rfl := Except.error.inj (congrArg Prod.fst h)
      refine ⟨[], act.taken s state, ?_, List.forall_mem_nil _, ?_⟩
      · simp only [steps, hact, List.nil_append]
      · rw [Act.taken_failure?, hact]
        rfl

/-- The steps of a plan and of what follows it. -/
theorem steps_bind {p : Plan α} {f : α → Plan β} : (p >>= f).steps s state =
    p.steps s state ++ match p.run s state with
      | (.ok a, mid) => (f a).steps s mid
      | (.error _, _) => [] := by
  induction p generalizing state with
  | done a => rfl
  | step act next ih =>
    have hbind : step act next >>= f = step act fun b => next b >>= f := rfl
    rw [hbind, run, Step.bind_run, steps, steps, List.cons_append]
    rcases act.perform s state with ⟨outcome, mid⟩
    cases outcome with
    | ok b => exact congrArg _ (ih b)
    | error e => rfl

@[simp]
theorem steps_pure (a : α) : (pure a : Plan α).steps s state = [] := rfl

theorem steps_ofAct (act : Act α) : (ofAct act).steps s state = [act.taken s state] := by
  rw [ofAct, steps]
  rcases act.perform s state with ⟨_ | _, _⟩ <;> rfl

/-- A plan ends with the error of its first part, or goes on from where that ends. -/
theorem bind_cases (p : Plan α) (f : α → Plan β) (s : Searcher σ) (state : σ) :
    (∃ e mid, p.run s state = (.error e, mid) ∧ (p >>= f).run s state = (.error e, mid) ∧
      (p >>= f).steps s state = p.steps s state) ∨
    ∃ a mid, p.run s state = (.ok a, mid) ∧ (p >>= f).run s state = (f a).run s mid ∧
      (p >>= f).steps s state = p.steps s state ++ (f a).steps s mid := by
  rw [run_bind, Step.bind_run, steps_bind]
  rcases hp : p.run s state with ⟨e | a, mid⟩
  · exact .inl ⟨e, mid, rfl, rfl, List.append_nil _⟩
  · exact .inr ⟨a, mid, rfl, rfl, rfl⟩

theorem bind_ok {p : Plan α} {f : α → Plan β} {b : β}
    (h : (p >>= f).run s state = (.ok b, state')) :
    ∃ a mid, p.run s state = (.ok a, mid) ∧ (f a).run s mid = (.ok b, state') ∧
      (p >>= f).steps s state = p.steps s state ++ (f a).steps s mid := by
  obtain ⟨e, mid, -, hfails, -⟩ | ⟨a, mid, hp, hrun, hsteps⟩ := p.bind_cases f s state
  · cases hfails.symm.trans h
  · exact ⟨a, mid, hp, hrun.symm.trans h, hsteps⟩

theorem run_recorded (p : Plan α) (log : List Event) (state : σ) :
    p.run s.recorded (log, state) =
      ((p.run s state).1, log ++ callsOf (p.steps s state), (p.run s state).2) := by
  induction p generalizing log state with
  | done a =>
    rw [steps, callsOf, List.filterMap_nil, List.append_nil]
    rfl
  | step act next ih =>
    rw [run, run, Step.bind_run, Step.bind_run, act.perform_recorded, steps]
    rcases act.perform s state with ⟨outcome, mid⟩
    cases outcome with
    | ok b =>
      refine (ih b _ mid).trans ?_
      rw [List.append_assoc, ← callsOf_append]
      rfl
    | error e => rfl

end Plan

-- ---------------------------------------------------------------------------
-- The calls of a plan
-- ---------------------------------------------------------------------------

/-- Whatever the answer, the call of the step is of a kind. -/
def Act.Makes (kind : Event → Prop) : Act α → Prop
  | lookup snapshot field term => ∀ answer, kind (.lookup snapshot field term answer)
  | fetch snapshot doc selector => ∀ answer, kind (.fetch snapshot doc selector answer)
  | execute snapshot query limit sorting =>
    ∀ answer, kind (.execute snapshot query limit sorting answer)
  | authorize token batch => ∀ answer, kind (.authorize token batch answer)
  | read _ => True

theorem Act.Makes.taken {kind : Event → Prop} {act : Act α} (h : act.Makes kind) (s : Searcher σ)
    (state : σ) : ∀ e ∈ callsOf [act.taken s state], kind e := by
  cases act with
  | read => simp [callsOf, Act.taken, Taken.event?]
  | _ => simpa [callsOf, Act.taken, Taken.event?] using h _

namespace Plan

/-- Whatever the answers, the calls of the plan are of a kind. -/
def Makes (kind : Event → Prop) : Plan α → Prop
  | done _ => True
  | step act next => act.Makes kind ∧ ∀ b, (next b).Makes kind

variable {kind other : Event → Prop} {p : Plan α}

theorem makes_pure (a : α) : (pure a : Plan α).Makes kind := trivial

theorem makes_ofAct {act : Act α} (h : act.Makes kind) : (ofAct act).Makes kind :=
  ⟨h, fun _ => trivial⟩

theorem Makes.bind {f : α → Plan β} (h : p.Makes kind) (hrest : ∀ a, (f a).Makes kind) :
    (p >>= f).Makes kind := by
  induction p with
  | done a => exact hrest a
  | step act next ih => exact ⟨h.1, fun b => ih b (h.2 b)⟩

theorem makes_ofAct_bind {act : Act α} {f : α → Plan β} (h : act.Makes kind)
    (hrest : ∀ a, (f a).Makes kind) : (ofAct act >>= f).Makes kind :=
  (makes_ofAct h).bind hrest

theorem makes_readAll (f : α → Except Error β) (l : List α) : (readAll f l).Makes kind := by
  induction l with
  | nil => exact makes_pure _
  | cons a rest ih => exact makes_ofAct_bind trivial fun _ => ih.bind fun _ => makes_pure _

theorem Makes.mono (h : p.Makes kind) (hkind : ∀ e, kind e → other e) : p.Makes other := by
  induction p with
  | done a => trivial
  | step act next ih =>
    refine ⟨?_, fun b => ih b (h.2 b)⟩
    cases act with
    | read => trivial
    | _ => exact fun answer => hkind _ (h.1 answer)

theorem Makes.steps (h : p.Makes kind) : ∀ e ∈ callsOf (p.steps s state), kind e := by
  induction p generalizing state with
  | done a => simp [Plan.steps, callsOf]
  | step act next ih =>
    intro e he
    rw [Plan.steps, ← List.singleton_append, callsOf_append, List.mem_append] at he
    rcases he with he | he
    · exact h.1.taken s state e he
    · split at he
      · exact ih _ (h.2 _) e he
      · cases he

end Plan

end GuardedSearch
