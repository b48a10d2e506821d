import GuardedSearch.Proofs.Pages
import GuardedSearch.Proofs.SearchPlans

/-!
# Snapshots are given back

A search releases the snapshot that it acquires, whatever fails on the way, and ends with the
error of its first step that fails. Over an index that the oracle only reads, it leaves what is
staged, published and pinned as it was. `search_releases` says both.
-/

namespace GuardedSearch

variable {σ τ : Type} {α : Type}

-- ---------------------------------------------------------------------------
-- Engines beside other state
-- ---------------------------------------------------------------------------

/-- A call on a state that holds more, which it leaves as it is. -/
def beside (call : StateM σ α) : StateM (σ × τ) α := fun (state, other) =>
  let (answer, state) := call state
  (answer, state, other)

/-- An engine whose state stands beside another, such as the memory of an oracle. -/
def Engine.beside (engine : Engine σ) (τ : Type) : Engine (σ × τ) where
  acquire := GuardedSearch.beside engine.acquire
  release snapshot := GuardedSearch.beside (engine.release snapshot)
  execute snapshot query limit sorting :=
    GuardedSearch.beside (engine.execute snapshot query limit sorting)
  fetch snapshot doc selector := GuardedSearch.beside (engine.fetch snapshot doc selector)
  lookup snapshot field term := GuardedSearch.beside (engine.lookup snapshot field term)
  enumerate snapshot field pattern :=
    GuardedSearch.beside (engine.enumerate snapshot field pattern)

section Kept

variable {s : Searcher ((FilterCache × Index) × τ)} (hengine : s.engine = Index.engine.beside τ)
  {I : Index → Prop} (hkept : ∀ token batch state, I state.1.2 →
    I (s.oracle.authorize token batch state).2.1.2)

include hengine hkept

theorem Act.perform_keeps (act : Act α) {state : (FilterCache × Index) × τ} (h : I state.1.2) :
    I (act.perform s state).2.1.2 := by
  cases act with
  | authorize token batch => exact hkept token batch state h
  | read => exact h
  | _ =>
    rw [perform, hengine]
    exact h

/-- Of the calls that a search makes while it holds a snapshot only those of the oracle may
change the index. -/
theorem Plan.run_keeps (p : Plan α) {state : (FilterCache × Index) × τ} (h : I state.1.2) :
    I (p.run s state).2.1.2 := by
  induction p generalizing state with
  | done a => exact h
  | step act next ih =>
    have hact := act.perform_keeps hengine hkept h
    rw [run, Step.bind_run]
    rcases hperform : act.perform s state with ⟨outcome, mid⟩
    rw [hperform] at hact
    cases outcome with
    | ok b => exact ih b hact
    | error e => exact hact

end Kept

namespace Index

/-- What is staged, published and pinned is the same. Handles may have been given out and taken
back. -/
def LeftAs (before after : Index) : Prop :=
  ∃ acquired, after = { before with acquired := acquired }

theorem LeftAs.refl (index : Index) : index.LeftAs index := ⟨index.acquired, rfl⟩

theorem LeftAs.trans {before between after : Index} (h : before.LeftAs between)
    (h' : between.LeftAs after) : before.LeftAs after := by
  obtain ⟨_, rfl⟩ := h
  obtain ⟨acquired, rfl⟩ := h'
  exact ⟨acquired, rfl⟩

variable {index index' : Index}

/-- The handles of open snapshots have been acquired. -/
theorem Acts.handles_le (h : Acts index index') (hle : ∀ e ∈ index.pinned, e.1 ≤ index.acquired) :
    ∀ e ∈ index'.pinned, e.1 ≤ index'.acquired := by
  cases h with
  | add doc h =>
    obtain ⟨hpinned, hacquired, -⟩ := add_pinned h
    rwa [hpinned, hacquired]
  | delete uri => exact hle
  | commit =>
    obtain ⟨hpinned, hacquired⟩ := commit_pinned index
    rwa [hpinned, hacquired]
  | acquire =>
    refine List.forall_mem_cons.mpr ⟨Nat.le_refl _, fun e he => Nat.le_succ_of_le (hle e he)⟩
  | release snapshot => exact fun e he => hle e (List.mem_filter.mp he).1

theorem Reachable.handles_le (h : index.Reachable) : ∀ e ∈ index.pinned, e.1 ≤ index.acquired := by
  induction h with
  | refl => simp [empty]
  | tail _ hact ih => exact hact.handles_le ih

/-- To release what was acquired leaves only the count of handles changed, if nothing else was
changed in between. -/
theorem Reachable.release_leftAs (h : index.Reachable) (hleft : index.acquire.2.LeftAs index') :
    index.LeftAs (index'.release index.acquire.1) := by
  obtain ⟨acquired, rfl⟩ := hleft
  have hkept : index.acquire.2.pinned.filter (fun e => e.1 ≠ index.acquire.1.id) =
      index.pinned := by
    refine (List.filter_cons_of_neg (by simp [acquire])).trans ?_
    rw [List.filter_eq_self]
    intro e he
    exact decide_eq_true (Nat.ne_of_lt (Nat.lt_succ_of_le (h.handles_le e he)))
  refine ⟨acquired, ?_⟩
  rw [release, hkept]
  rfl

end Index

/-- The oracle reads the index, if it does, and gives back the snapshots that it takes, but does
not change it. -/
def Oracle.LeavesIndex (oracle : Oracle ((FilterCache × Index) × τ)) : Prop :=
  ∀ token batch (state : (FilterCache × Index) × τ),
    state.1.2.LeftAs (oracle.authorize token batch state).2.1.2

namespace Searcher

-- ---------------------------------------------------------------------------
-- Releases
-- ---------------------------------------------------------------------------

/-- The log of a search with its steps. Nothing is called for a page of no documents, and nothing
after an acquisition that fails. Else the first call acquires a snapshot and the last releases
it, and what is between uses no other. -/
inductive Brackets (need : Nat) : List Taken → List Event → Prop
  | none (hneed : need = 0) : Brackets need [] []
  | refused (hneed : 0 < need) (e : EngineError) :
      Brackets need [.call (.acquire (.error e))] [.acquire (.error e)]
  | held (hneed : 0 < need) (snapshot : SnapshotHandle) (rest : List Taken)
      (huses : ∀ call ∈ callsOf rest, call.Uses snapshot) :
      Brackets need (.call (.acquire (.ok snapshot)) :: rest)
        (.acquire (.ok snapshot) :: callsOf rest ++ [.release snapshot])

variable {s : Searcher σ} {token : Token} {request : SearchRequest} {state : σ}

theorem steps_brackets : Brackets (request.need s.config.maxLimit) (s.steps token request state)
    (callsOf (s.steps token request state) ++ s.releases request state) := by
  obtain ⟨hneed, -, hsteps, hreleases⟩ | ⟨hneed, e, mid, -, -, hsteps, hreleases⟩ |
    ⟨hneed, snapshot, mid, -, -, hsteps, hreleases⟩ := s.search_cases token request state
  · rw [hsteps, hreleases]
    exact .none hneed
  · rw [hsteps, hreleases]
    exact .refused hneed e
  · rw [hsteps, hreleases]
    exact .held hneed snapshot _ (plan_uses hneed).steps

theorem steps_of_ok {result : ResultSet} (h : (s.search token request state).1 = .ok result) :
    ∀ step ∈ s.steps token request state, step.failure? = none := by
  obtain ⟨-, -, hsteps, -⟩ | ⟨-, e, mid, -, hsearch, -⟩ |
    ⟨hneed, snapshot, mid, -, hsearch, hsteps, -⟩ := s.search_cases token request state
  · rw [hsteps]
    exact List.forall_mem_nil _
  · rw [hsearch] at h
    cases h
  · rw [hsearch] at h
    rw [hsteps]
    exact List.forall_mem_cons.mpr ⟨rfl, Plan.steps_of_ok (Prod.ext h rfl)⟩

theorem steps_of_error {e : Error} (h : (s.search token request state).1 = .error e) :
    ∃ before last, s.steps token request state = before ++ [last] ∧
      (∀ step ∈ before, step.failure? = none) ∧ last.failure? = some e := by
  obtain ⟨-, hsearch, -⟩ | ⟨-, cause, mid, -, hsearch, hsteps, -⟩ |
    ⟨hneed, snapshot, mid, -, hsearch, hsteps, -⟩ := s.search_cases token request state
  · rw [hsearch] at h
    cases h
  · rw [hsearch] at h
    obtain rfl := Except.error.inj h
    exact ⟨[], _, hsteps, List.forall_mem_nil _, rfl⟩
  · rw [hsearch] at h
    obtain ⟨before, last, hplan, hbefore, hlast⟩ := Plan.steps_of_error (Prod.ext h rfl)
    rw [hsteps, hplan]
    exact ⟨_ :: before, last, rfl, List.forall_mem_cons.mpr ⟨rfl, hbefore⟩, hlast⟩

/-- Over an index that the oracle does not change, a search leaves the index as it is but for
the count of handles. -/
theorem search_leaves_index {s : Searcher ((FilterCache × Index) × τ)}
    (hengine : s.engine = Index.engine.beside τ) (hleaves : s.oracle.LeavesIndex)
    {state : (FilterCache × Index) × τ} (hreachable : state.1.2.Reachable) :
    state.1.2.LeftAs (s.search token request state).2.1.2 := by
  by_cases hneed : request.need s.config.maxLimit = 0
  · rw [search_of_need_eq_zero s token hneed]
    exact .refl _
  · have hpos := Nat.pos_of_ne_zero hneed
    obtain ⟨⟨cells, index⟩, other⟩ := state
    have hacquire : s.engine.acquire ((cells, index), other) =
        (.ok index.acquire.1, (cells, index.acquire.2), other) := by
      rw [hengine]
      rfl
    have hheld : index.acquire.2.LeftAs ((s.plan token request index.acquire.1 hpos).run s
        ((cells, index.acquire.2), other)).2.1.2 :=
      Plan.run_keeps hengine (I := index.acquire.2.LeftAs)
        (fun token batch state h => h.trans (hleaves token batch state)) _ (.refl _)
    rw [search_of_acquire_ok hpos hacquire, hengine]
    exact hreachable.release_leftAs hheld

/-- A search gives back what it takes and hides no failure, whatever fails on the way. Its calls
are those of its steps and the release of the snapshot that it acquired, which is the last. It
succeeds just when none of its steps fails, and else ends with the error of the step that failed,
which is the last. Over an index with a history that the oracle does not change, it leaves what
is staged, published and pinned as it was. -/
theorem search_releases :
    (∀ {σ : Type} (s : Searcher σ) (token : Token) (request : SearchRequest) (state : σ),
      (∃ log, s.recorded.search token request ([], state) =
          ((s.search token request state).1, log, (s.search token request state).2) ∧
        Brackets (request.need s.config.maxLimit) (s.steps token request state) log) ∧
      ((∃ result, (s.search token request state).1 = .ok result) ↔
        ∀ step ∈ s.steps token request state, step.failure? = none) ∧
      ∀ e, (s.search token request state).1 = .error e ↔
        ∃ before last, s.steps token request state = before ++ [last] ∧
          (∀ step ∈ before, step.failure? = none) ∧ last.failure? = some e) ∧
    ∀ {τ : Type} (s : Searcher ((FilterCache × Index) × τ)), s.engine = Index.engine.beside τ →
      s.oracle.LeavesIndex → ∀ token request (state : (FilterCache × Index) × τ),
        state.1.2.Reachable → state.1.2.LeftAs (s.search token request state).2.1.2 := by
  refine ⟨fun s token request state => ⟨⟨_, ?_, steps_brackets⟩, ?_, fun e => ?_⟩, ?_⟩
  · rw [search_recorded, List.nil_append]
  · constructor
    · rintro ⟨result, h⟩
      exact steps_of_ok h
    · intro hall
      cases h : (s.search token request state).1 with
      | ok result => exact ⟨result, rfl⟩
      | error e =>
        obtain ⟨before, last, hsteps, -, hlast⟩ := steps_of_error h
        rw [hall last (by rw [hsteps]; simp)] at hlast
        cases hlast
  · refine ⟨steps_of_error, ?_⟩
    rintro ⟨before, last, hsteps, -, hlast⟩
    cases h : (s.search token request state).1 with
    | ok result =>
      rw [steps_of_ok h last (by rw [hsteps]; simp)] at hlast
      cases hlast
    | error e' =>
      obtain ⟨before', last', hsteps', -, hlast'⟩ := steps_of_error h
      obtain ⟨-, hsame⟩ := List.append_inj' (hsteps.symm.trans hsteps') rfl
      rw [List.singleton_inj.mp hsame, hlast'] at hlast
      rw [Option.some.inj hlast]
  · intro τ s hengine hleaves token request state hreachable
    exact search_leaves_index hengine hleaves hreachable

/-- An oracle that answers once, for nobody, and fails after that. -/
def exhausted : Oracle ((FilterCache × Index) × Nat) where
  authorize _ batch := fun (state, calls) =>
    (if calls = 0 then .ok batch else .error (.authorization "no more answers"), state, calls + 1)

/-- Windows of at most two documents. -/
def narrow : SearchConfig := ⟨2, 1, maxLimit, 1⟩

theorem narrow_isValid : narrow.IsValid := by decide

def overExhausted : Searcher ((FilterCache × Index) × Nat) :=
  ⟨.initial, Index.engine.beside Nat, exhausted, narrow, narrow_isValid⟩

/-- The oracle fails in the second round, and the snapshot is released. -/
theorem search_releases_second_round : ∃ snapshot calls acquired state,
    overExhausted.recorded.search ⟨"caller"⟩ firstResource
        ([], (.empty, Index.tagged.commit.2), 0) =
        (.error (.authorization "no more answers"),
          .acquire (.ok snapshot) :: calls ++ [.release snapshot], state) ∧
      (∀ call ∈ calls, call.Uses snapshot) ∧
      state.1.2 = { Index.tagged.commit.2 with acquired := acquired } ∧ state.2 = 2 := by
  have hfailure : failureOf id (overExhausted.search ⟨"caller"⟩ firstResource
      ((.empty, Index.tagged.commit.2), 0)).1 = some (.authorization "no more answers") := by
    decide +kernel
  have hcalls : (overExhausted.search ⟨"caller"⟩ firstResource
      ((.empty, Index.tagged.commit.2), 0)).2.2 = 2 := by
    decide +kernel
  obtain ⟨⟨log, hrun, hbrackets⟩, -, herror⟩ := search_releases.1 overExhausted ⟨"caller"⟩
    firstResource ((.empty, Index.tagged.commit.2), 0)
  obtain ⟨acquired, hindex⟩ := search_releases.2 overExhausted rfl (fun _ _ _ => .refl _) ⟨"caller"⟩
    firstResource ((.empty, Index.tagged.commit.2), 0) tagged_reachable
  cases houtcome : (overExhausted.search ⟨"caller"⟩ firstResource
      ((.empty, Index.tagged.commit.2), 0)).1 with
  | ok result =>
    rw [houtcome] at hfailure
    cases hfailure
  | error e =>
    rw [houtcome] at hfailure hrun
    obtain rfl := Option.some.inj hfailure
    obtain ⟨before, last, hsteps, -, hlast⟩ := (herror _).mp houtcome
    rw [hsteps] at hbrackets
    generalize hall : before ++ [last] = all at hbrackets
    cases hbrackets with
    | none hneed => cases hneed
    | refused hneed cause =>
      obtain ⟨-, hsame⟩ := List.append_inj' (hall.trans (List.nil_append _).symm) rfl
      rw [List.singleton_inj.mp hsame] at hlast
      cases hlast
    | held hneed snapshot rest huses =>
      exact ⟨snapshot, _, acquired, _, hrun, huses, hindex, hcalls⟩

end Searcher

end GuardedSearch
