import GuardedSearch.Proofs.SearchPlans
import Mathlib.Algebra.Order.Floor.Div
import Mathlib.Data.List.Chain
import Mathlib.Data.List.Iterate
import Mathlib.Data.Nat.Log

/-!
# The schedule of the windows

The window of a round is at least twice that of the round before, until it reaches the ceiling.
So the rounds are bounded by the logarithm of what lies between the first window and the
ceiling, whatever the engine answers (`widenPlan_limits`). Within that bound a search that
computes with machine words does what the search does (`searchInWords_eq`).
-/

namespace GuardedSearch

variable {σ : Type} {α : Type}

-- ---------------------------------------------------------------------------
-- Machine words
-- ---------------------------------------------------------------------------

namespace Word

/-- The sum of two words, if it is a word. -/
def add? (m n : Nat) : Option Nat := if m + n ≤ maxCount then some (m + n) else none

def saturatingAdd (m n : Nat) : Nat := min (m + n) maxCount

def saturatingMul (m n : Nat) : Nat := min (m * n) maxCount

end Word

/-- The elements from one index up to another, if they are indices of the list in this order. -/
def slice? (l : List α) (start stop : Nat) : Option (List α) :=
  if start ≤ stop ∧ stop ≤ l.length then some ((l.take stop).drop start) else none

theorem slice?_length_getD (l : List α) (start : Nat) :
    (slice? l start l.length).getD [] = l.drop start := by
  rw [slice?]
  split
  · rw [List.take_length, Option.getD_some]
  · next h =>
    rw [List.drop_eq_nil_of_le (by omega)]
    rfl

theorem Step.map_run {β : Type} (f : α → β) (x : Step σ α) (state : σ) :
    (f <$> x) state = ((x state).1.map f, (x state).2) := by
  rw [map_eq_pure_bind, bind_run]
  rcases x state with ⟨_ | _, _⟩ <;> rfl

theorem Step.map_withSnapshot {β : Type} (f : α → β) (engine : Engine σ)
    (body : SnapshotHandle → Step σ α) :
    f <$> withSnapshot engine body = withSnapshot engine fun snapshot => f <$> body snapshot := by
  rw [withSnapshot, withSnapshot, map_bind]
  refine bind_congr fun snapshot => funext fun state => ?_
  rw [map_run]
  change _ = (((f <$> body snapshot) state).1,
    (engine.release snapshot ((f <$> body snapshot) state).2).2)
  rw [map_run]
  rfl

namespace Searcher

-- ---------------------------------------------------------------------------
-- Windows
-- ---------------------------------------------------------------------------

/-- How many rounds there are at most from a window on: one, and one more for each time that
the window is to be doubled. -/
def mostRounds (config : SearchConfig) (limit : Nat) : Nat :=
  1 + Nat.clog 2 (config.ceiling ⌈/⌉ limit)

theorem mostRounds_le_iff {config : SearchConfig} {limit : Nat} (hpos : 0 < limit) (k : Nat) :
    mostRounds config limit ≤ k + 1 ↔ config.ceiling ≤ limit * 2 ^ k := by
  rw [mostRounds, Nat.add_comm, Nat.add_le_add_iff_right, Nat.clog_le_iff_le_pow Nat.one_lt_two,
    ceilDiv_le_iff_le_mul hpos]

theorem ceiling_le_nextLimit_mul {config : SearchConfig} {limit k : Nat}
    (h : config.ceiling ≤ limit * 2 ^ (k + 1)) :
    config.ceiling ≤ nextLimit config limit * 2 ^ k := by
  have hnext : config.ceiling ≤ nextLimit config limit ∨ 2 * limit ≤ nextLimit config limit := by
    unfold nextLimit
    omega
  rcases hnext with hceiling | hdoubled
  · exact hceiling.trans (Nat.le_mul_of_pos_right _ (Nat.two_pow_pos k))
  · rw [Nat.pow_succ', ← Nat.mul_assoc, Nat.mul_comm limit] at h
    exact h.trans (Nat.mul_le_mul_right _ hdoubled)

/-- The window of a round that is not the last, and that of the next. -/
def Widens (config : SearchConfig) (limit next : Nat) : Prop :=
  0 < limit ∧ limit < config.ceiling ∧ next = nextLimit config limit

/-- The windows of a search: they follow the schedule, grow and stay below the ceiling, and are
no more than it takes to reach it by doubling. -/
structure Schedule (config : SearchConfig) (first : Nat) (limits : List Nat) : Prop where
  follows : limits = List.iterate (nextLimit config) first limits.length
  grows : limits.Pairwise (· < ·)
  bounded : ∀ limit ∈ limits, limit ≤ config.ceiling
  short : limits.length ≤ mostRounds config first

theorem schedule_nil (config : SearchConfig) (first : Nat) : Schedule config first [] :=
  ⟨rfl, .nil, List.forall_mem_nil _, Nat.zero_le _⟩

section Chains

variable {config : SearchConfig} {limit : Nat} {rest : List Nat}

theorem iterate_of_isChain (h : (limit :: rest).IsChain (Widens config)) :
    limit :: rest = List.iterate (nextLimit config) limit (rest.length + 1) := by
  induction rest generalizing limit with
  | nil => rfl
  | cons next rest ih =>
    obtain ⟨⟨-, -, hnext⟩, hrest⟩ := List.isChain_cons_cons.mp h
    refine (congrArg (limit :: ·) (ih hrest)).trans ?_
    rw [hnext]
    rfl

theorem bounded_of_isChain (h : (limit :: rest).IsChain (Widens config))
    (hlimit : limit ≤ config.ceiling) : ∀ l ∈ limit :: rest, l ≤ config.ceiling := by
  induction rest generalizing limit with
  | nil => simpa using hlimit
  | cons next rest ih =>
    obtain ⟨⟨-, -, hnext⟩, hrest⟩ := List.isChain_cons_cons.mp h
    exact List.forall_mem_cons.mpr ⟨hlimit, ih hrest (hnext ▸ Nat.min_le_left ..)⟩

theorem schedule_of_isChain (h : (limit :: rest).IsChain (Widens config))
    (hlimit : limit ≤ config.ceiling) (hshort : rest.length + 1 ≤ mostRounds config limit) :
    Schedule config limit (limit :: rest) where
  follows := iterate_of_isChain h
  grows := by
    refine List.isChain_iff_pairwise.mp (h.imp ?_)
    rintro l next ⟨hpos, hbelow, rfl⟩
    exact lt_nextLimit hpos hbelow
  bounded := bounded_of_isChain h hlimit
  short := hshort

end Chains

-- ---------------------------------------------------------------------------
-- Rounds
-- ---------------------------------------------------------------------------

section Rounds

variable {s : Searcher σ} {token : Token} {request : SearchRequest} {snapshot : SnapshotHandle}

section Logs

variable {state : σ}

theorem limitsOf_eq_nil {log : List Event} (h : ∀ e ∈ log, e.limit? = none) : limitsOf log = [] :=
  List.filterMap_eq_nil_iff.mpr h

theorem limitsOf_append (log more : List Event) :
    limitsOf (log ++ more) = limitsOf log ++ limitsOf more := List.filterMap_append

theorem limitsOf_of_reads {p : Plan α} (h : p.Makes (Event.Reads snapshot)) :
    limitsOf (callsOf (p.steps s state)) = [] :=
  limitsOf_eq_nil fun e he => (h.steps e he).limit?_batch?.1

theorem limitsOf_authorizePlan (docs : List DocId) :
    limitsOf (callsOf ((authorizePlan token snapshot docs).steps s state)) = [] :=
  limitsOf_eq_nil fun e he => ((authorizePlan_makes docs).steps e he).2

theorem limitsOf_releases : limitsOf (s.releases request state) = [] := by
  rw [releases]
  split
  · rfl
  · split <;> rfl

theorem limitsOf_execute {query : NativeQuery} {limit : Nat} {sorting : Sorting} :
    limitsOf (callsOf ((Plan.ofAct (.execute snapshot query limit sorting)).steps s state)) =
      [limit] := by
  rw [Plan.steps_ofAct]
  rfl

/-- The windows of a round and of what follows it. -/
theorem limitsOf_round {query : NativeQuery} {limit : Nat} {sorting : Sorting} {docs : List DocId}
    {mid : σ} {log : List Event} :
    limitsOf (callsOf ((Plan.ofAct (.execute snapshot query limit sorting)).steps s state) ++
      (callsOf ((authorizePlan token snapshot docs).steps s mid) ++ log)) =
        limit :: limitsOf log := by
  rw [limitsOf_append, limitsOf_append, limitsOf_execute, limitsOf_authorizePlan]
  rfl

end Logs

variable (s token request snapshot)

/-- The windows of the rounds from one on form a chain, and are counted by the rounds. The window
has to be doubled once less often from round to round, so there are no more than `k` others. -/
theorem widenPlan_limits (query : NativeQuery) {limit k : Nat} (hpos : 0 < limit) (scanned : Nat)
    (granted : List DocId) (rounds : Nat) (state : σ) (hk : s.config.ceiling ≤ limit * 2 ^ k) :
    ∃ rest, limitsOf (callsOf ((widenPlan s.config token request snapshot query limit hpos scanned
        granted rounds).steps s state)) = limit :: rest ∧
      (limit :: rest).IsChain (Widens s.config) ∧ rest.length ≤ k ∧
      ∀ findings state', (widenPlan s.config token request snapshot query limit hpos scanned granted
        rounds).run s state = (.ok findings, state') →
          findings.rounds = rounds + (rest.length + 1) := by
  induction limit using nextLimit_induction s.config
    generalizing k scanned granted rounds state with
  | round limit ih =>
    rw [widenPlan]
    obtain ⟨e, mid, hexecute, hrun, hsteps⟩ | ⟨top, mid, hexecute, hrun, hsteps⟩ :=
      Plan.bind_cases (.ofAct (.execute snapshot query limit request.sorting)) _ s state
    · rw [hsteps, hrun, limitsOf_execute]
      refine ⟨[], rfl, .singleton _, Nat.zero_le _, ?_⟩
      rintro findings state' h
      cases h
    rw [hsteps, hrun, callsOf_append]
    obtain ⟨e, after, hnewly, hrun, hsteps⟩ | ⟨newly, after, hnewly, hrun, hsteps⟩ :=
      Plan.bind_cases (authorizePlan token snapshot (top.docs.drop scanned)) _ s mid
    · rw [hsteps, hrun, limitsOf_append, limitsOf_execute, limitsOf_authorizePlan]
      refine ⟨[], rfl, .singleton _, Nat.zero_le _, ?_⟩
      rintro findings state' h
      cases h
    rw [hsteps, hrun, callsOf_append, limitsOf_round]
    dsimp only
    split
    · refine ⟨[], rfl, .singleton _, Nat.zero_le _, ?_⟩
      rintro findings state' h
      obtain ⟨rfl, -⟩ := Step.pure_ok.mp h
      rfl
    · split
      · refine ⟨[], rfl, .singleton _, Nat.zero_le _, ?_⟩
        rintro findings state' h
        obtain ⟨rfl, -⟩ := Step.pure_ok.mp h
        rfl
      · next hceiling =>
        have hbelow := Nat.lt_of_not_le hceiling
        cases k with
        | zero => omega
        | succ k =>
          obtain ⟨rest, hlimits, hchain, hshort, hrounds⟩ :=
            ih hpos hbelow (Nat.lt_trans hpos (lt_nextLimit hpos hbelow)) top.docs.length
              (granted ++ newly) (rounds + 1) after (ceiling_le_nextLimit_mul hk)
          refine ⟨_, congrArg (limit :: ·) hlimits, hchain.cons_cons ⟨hpos, hbelow, rfl⟩, ?_, ?_⟩
          · exact Nat.succ_le_succ hshort
          · intro findings state' h
            rw [hrounds findings state' h, List.length_cons]
            omega

theorem plan_schedule (hneed : 0 < request.need s.config.maxLimit) (state : σ) :
    let limits := limitsOf (callsOf ((s.plan token request snapshot hneed).steps s state))
    Schedule s.config (firstLimit s.config (request.need s.config.maxLimit)) limits ∧
      ∀ result state', (s.plan token request snapshot hneed).run s state = (.ok result, state') →
        result.rounds = limits.length := by
  have hfirst := firstLimit_pos s.config_isValid hneed
  obtain ⟨e, mid, -, hrun, hsteps⟩ | ⟨query, mid, -, hrun, hsteps⟩ :=
    Plan.bind_cases (request.query.plan s.schema snapshot) _ s state
  · rw [plan, hsteps, hrun, limitsOf_of_reads (Query.plan_reads _)]
    refine ⟨schedule_nil .., ?_⟩
    rintro result state' h
    cases h
  rw [plan, hsteps, hrun, callsOf_append, limitsOf_append, limitsOf_of_reads (Query.plan_reads _)]
  obtain ⟨rest, hlimits, hchain, hshort, hrounds⟩ :=
    s.widenPlan_limits token request snapshot query hfirst 0 [] 0 mid
      ((mostRounds_le_iff hfirst _).mp (Nat.le_of_eq (Nat.add_comm 1 _)))
  have hschedule := schedule_of_isChain hchain (Nat.min_le_left ..)
    (Nat.add_comm _ 1 ▸ Nat.add_le_add_left hshort 1)
  obtain ⟨e, after, -, hrun, hsteps⟩ | ⟨findings, after, hfindings, hrun, hsteps⟩ :=
    Plan.bind_cases (widenPlan s.config token request snapshot query
      (firstLimit s.config (request.need s.config.maxLimit)) hfirst 0 [] 0) _ s mid
  · rw [hsteps, hrun, hlimits]
    refine ⟨hschedule, ?_⟩
    rintro result state' h
    cases h
  rw [hsteps, hrun, callsOf_append, limitsOf_append, hlimits, limitsOf_of_reads
    ((materializeAllPlan_reads _).bind fun _ => Plan.makes_pure _), List.append_nil]
  refine ⟨hschedule, ?_⟩
  intro result state' h
  rw [Plan.run_bind, Step.bind_ok] at h
  obtain ⟨records, _, -, h⟩ := h
  obtain ⟨rfl, -⟩ := Step.pure_ok.mp h
  exact (hrounds _ _ hfindings).trans (Nat.zero_add _)

theorem steps_schedule (hneed : 0 < request.need s.config.maxLimit) (state : σ) :
    let limits := limitsOf (callsOf (s.steps token request state))
    Schedule s.config (firstLimit s.config (request.need s.config.maxLimit)) limits ∧
      ∀ result, (s.search token request state).1 = .ok result → result.rounds = limits.length := by
  obtain ⟨hzero, -⟩ | ⟨-, e, mid, -, hsearch, hsteps, -⟩ |
    ⟨hneed, snapshot, mid, -, hsearch, hsteps, -⟩ := s.search_cases token request state
  · exact absurd hzero (Nat.ne_of_gt hneed)
  · rw [hsearch, hsteps]
    refine ⟨schedule_nil .., ?_⟩
    rintro result h
    cases h
  · obtain ⟨hschedule, hrounds⟩ := s.plan_schedule token request snapshot hneed mid
    rw [hsearch, hsteps]
    exact ⟨hschedule, fun result h => hrounds result _ (Prod.ext h rfl)⟩

end Rounds

-- ---------------------------------------------------------------------------
-- Searches with machine words
-- ---------------------------------------------------------------------------

variable (s : Searcher σ) (token : Token) (request : SearchRequest)

/-- The rounds as machine words compute them. There are no findings if a sum is no word, or if
after `fuel` rounds another is to follow. -/
def widenInWords (snapshot : SnapshotHandle) (query : NativeQuery) (need : Nat) :
    Nat → Nat → Nat → List DocId → Nat → Step σ (Option Findings)
  | 0, _, _, _, _ => return none
  | fuel + 1, limit, scanned, granted, rounds => do
    let top ← Step.call (s.engine.execute snapshot query limit request.sorting)
    let some rounds := Word.add? rounds 1 | return none
    let fresh := (slice? top.docs scanned top.docs.length).getD []
    let newly ← s.authorize token snapshot fresh
    let granted := granted ++ newly
    if need ≤ granted.length ∨ top.totalHits = top.docs.length ∨ limit = s.config.ceiling then
      return some ⟨granted, top.totalHits, rounds⟩
    else
      widenInWords snapshot query need fuel
        (min s.config.ceiling (max (Word.saturatingMul limit 2) s.config.minUpscale))
        top.docs.length granted rounds

/-- A search as machine words compute it, with no more than `fuel` rounds. There is no result if
a sum is no word, a slice is not within its list, or the rounds do not end. -/
def searchInWords (fuel : Nat) : Step σ (Option ResultSet) :=
  let need := Word.saturatingAdd request.cursor (min request.limit s.config.maxLimit)
  if need = 0 then return some .empty
  else Step.withSnapshot s.engine fun snapshot => do
    let query ← request.query.translate s.schema s.engine snapshot
    let some findings ← s.widenInWords token request snapshot query need fuel
      (min s.config.ceiling need) 0 [] 0 | return none
    let authorized := findings.authorized
    let shown := if request.cursor < authorized.length then
        slice? authorized request.cursor (min need authorized.length)
      else some []
    let some docs := shown | return none
    let records ← s.materializeAll snapshot request.select docs
    return some ⟨records, findings.totalHits, findings.rounds, 0⟩

theorem nextLimit_inWords {config : SearchConfig} (hceiling : config.ceiling ≤ Word.maxCount)
    (limit : Nat) :
    min config.ceiling (max (Word.saturatingMul limit 2) config.minUpscale) =
      nextLimit config limit := by
  unfold Word.saturatingMul nextLimit
  omega

theorem slice?_page {cursor need : Nat} (hcursor : cursor ≤ need) (authorized : List DocId) :
    (if cursor < authorized.length then slice? authorized cursor (min need authorized.length)
      else some []) = some (page cursor need authorized) := by
  rw [page]
  split
  · next h =>
    rw [slice?, if_pos (by omega), ← List.take_eq_take_min]
  · next h =>
    rw [List.drop_eq_nil_of_le]
    rw [List.length_take]
    omega

/-- With words for the sums and enough fuel for the doublings, the rounds are those of the
search. -/
theorem widenInWords_eq (snapshot : SnapshotHandle) (query : NativeQuery)
    (hceiling : s.config.ceiling ≤ Word.maxCount) {k limit : Nat} (hpos : 0 < limit)
    (hlimit : limit ≤ s.config.ceiling) (hk : s.config.ceiling ≤ limit * 2 ^ k) (scanned : Nat)
    (granted : List DocId) (rounds : Nat) (hrounds : rounds + (k + 1) ≤ Word.maxCount) :
    s.widenInWords token request snapshot query (request.need s.config.maxLimit) (k + 1) limit
        scanned granted rounds =
      some <$> s.widen token request snapshot query limit hpos scanned granted rounds := by
  induction limit using nextLimit_induction s.config generalizing k scanned granted rounds with
  | round limit ih =>
    have hsum : Word.add? rounds 1 = some (rounds + 1) := if_pos (by omega)
    rw [widenInWords, widen, map_bind]
    refine bind_congr fun top => ?_
    simp only [hsum, slice?_length_getD, map_bind]
    refine bind_congr fun newly => ?_
    by_cases hstop : request.need s.config.maxLimit ≤ (granted ++ newly).length ∨
        top.totalHits = top.docs.length
    · rw [if_pos hstop, if_pos (hstop.imp_right .inl)]
      rfl
    rw [if_neg hstop]
    by_cases hlast : s.config.ceiling ≤ limit
    · rw [dif_pos hlast, if_pos (.inr (.inr (Nat.le_antisymm hlimit hlast)))]
      rfl
    · have hbelow := Nat.lt_of_not_le hlast
      rw [dif_neg hlast, if_neg (by omega), nextLimit_inWords hceiling]
      cases k with
      | zero => omega
      | succ k =>
        exact ih hpos hbelow _ (Nat.min_le_left ..) (ceiling_le_nextLimit_mul hk) _ _ _ (by omega)

/-- A ceiling that is a word is reached by doublings that a word counts. -/
theorem mostRounds_le_maxCount {config : SearchConfig} {limit : Nat} (hpos : 0 < limit)
    (hceiling : config.ceiling ≤ Word.maxCount) : mostRounds config limit ≤ Word.maxCount := by
  have hwide : config.ceiling ≤ limit * 2 ^ 64 := by
    simp only [Word.maxCount] at hceiling
    omega
  exact ((mostRounds_le_iff hpos 64).mpr hwide).trans (by decide)

/-- A search that computes with words, and ends after the rounds of the schedule, is the search:
no sum or product leaves the words, and no slice its list. -/
theorem searchInWords_eq (hneed : 0 < request.need s.config.maxLimit)
    (hceiling : s.config.ceiling ≤ Word.maxCount) (hcursor : request.cursor ≤ Word.maxCount) :
    s.searchInWords token request
        (mostRounds s.config (firstLimit s.config (request.need s.config.maxLimit))) =
      some <$> s.search token request := by
  have hfirst := firstLimit_pos s.config_isValid hneed
  have hmost := mostRounds_le_maxCount hfirst hceiling
  have hbeyond : request.cursor ≤ request.need s.config.maxLimit :=
    Nat.le_min.mpr ⟨Nat.le_add_right .., hcursor⟩
  have hk : s.config.ceiling ≤ firstLimit s.config (request.need s.config.maxLimit) *
      2 ^ Nat.clog 2 (s.config.ceiling ⌈/⌉ firstLimit s.config (request.need s.config.maxLimit)) :=
    (mostRounds_le_iff hfirst _).mp (Nat.le_of_eq (Nat.add_comm 1 _))
  have hsum : Word.saturatingAdd request.cursor (min request.limit s.config.maxLimit) =
      request.need s.config.maxLimit := rfl
  rw [mostRounds, Nat.add_comm 1] at hmost ⊢
  simp only [searchInWords, search, hsum]
  rw [if_neg (Nat.ne_of_gt hneed), dif_neg (Nat.ne_of_gt hneed), Step.map_withSnapshot]
  congr 1
  funext snapshot
  simp only [map_bind]
  refine bind_congr fun query => ?_
  have hwiden := s.widenInWords_eq token request snapshot query hceiling hfirst
    (Nat.min_le_left ..) hk 0 [] 0 (by omega)
  rw [← firstLimit, hwiden, bind_map_left]
  refine bind_congr fun findings => ?_
  simp only [slice?_page hbeyond]
  rfl

/-- Whatever the engine and the oracle answer, the windows of a search follow the schedule, and
every round has one. Whatever words the sizes are, the search ends after the rounds of the
schedule without a sum or product that is no word or a slice that is not within its list. -/
theorem search_schedule (hneed : 0 < request.need s.config.maxLimit) (state : σ) :
    let first := firstLimit s.config (request.need s.config.maxLimit)
    (∃ log, s.recorded.search token request ([], state) =
        ((s.search token request state).1, log, (s.search token request state).2) ∧
      Schedule s.config first (limitsOf log) ∧
      ∀ result, (s.search token request state).1 = .ok result →
        result.rounds = (limitsOf log).length) ∧
    (s.config.ceiling ≤ Word.maxCount → request.cursor ≤ Word.maxCount →
      s.searchInWords token request (mostRounds s.config first) =
        some <$> s.search token request) := by
  obtain ⟨hschedule, hrounds⟩ := s.steps_schedule token request hneed state
  have hlimits : limitsOf (callsOf (s.steps token request state) ++ s.releases request state) =
      limitsOf (callsOf (s.steps token request state)) := by
    rw [limitsOf_append, limitsOf_releases, List.append_nil]
  refine ⟨⟨callsOf (s.steps token request state) ++ s.releases request state, ?_, ?_, ?_⟩,
    searchInWords_eq s token request hneed⟩
  · rw [search_recorded, List.nil_append]
  · rwa [hlimits]
  · rwa [hlimits]

/-- An engine that counts a document but lists none. -/
def boastful : Engine Unit where
  acquire := return .ok ⟨1⟩
  release _ := return ()
  execute _ _ _ _ := return .ok ⟨[], 1⟩
  fetch _ _ _ := return .ok ∅
  lookup _ _ _ := return .ok none
  enumerate _ _ _ := return .ok []

/-- A searcher whose windows may hold as many documents as a word counts. -/
def overBoastful : Searcher Unit :=
  ⟨.initial, boastful, .ofPredicate fun _ _ => true, ⟨Word.maxCount, 1, maxLimit, 1⟩, by decide⟩

/-- The window is doubled until it has reached the greatest word. -/
theorem search_schedule_greatest_word : ∃ log result,
    overBoastful.recorded.search ⟨"caller"⟩ (.ofQuery (.present Field.uri)) ([], ()) =
        (.ok result, log, ()) ∧
      result.rounds = 50 ∧ mostRounds overBoastful.config maxLimit = 50 ∧
      limitsOf log = List.iterate (nextLimit overBoastful.config) maxLimit 50 ∧
      overBoastful.searchInWords ⟨"caller"⟩ (.ofQuery (.present Field.uri)) 50 =
        some <$> overBoastful.search ⟨"caller"⟩ (.ofQuery (.present Field.uri)) := by
  have hresult : (overBoastful.search ⟨"caller"⟩ (.ofQuery (.present Field.uri)) ()).1.toOption =
      some ⟨[], 1, 50, 0⟩ := by
    decide +kernel
  have hmost : mostRounds overBoastful.config maxLimit = 50 := by
    decide +kernel
  rw [Outcome.toOption_eq_some] at hresult
  obtain ⟨⟨log, hrun, hschedule, hrounds⟩, hwords⟩ := search_schedule overBoastful ⟨"caller"⟩
    (.ofQuery (.present Field.uri)) (by decide) ()
  have hlength := hrounds _ hresult
  have hfollows := hschedule.follows
  rw [← hlength] at hfollows
  have hwords := hwords (Nat.le_refl _) (Nat.zero_le _)
  rw [show firstLimit overBoastful.config _ = maxLimit by decide, hmost] at hwords
  exact ⟨log, _, hrun.trans (by rw [hresult]), rfl, hmost, hfollows, hwords⟩

end Searcher

end GuardedSearch
