import GuardedSearch.Proofs.Ranking

/-!
# Evaluation by questions

To evaluate a query is to ask for the terms of its filters, as long as their cells are empty, and
each of these questions may fail. An evaluation ends with the first that does
(`evaluateFrom_ends`); otherwise it finds what it finds without questions, and that is what matches
with the sets that the cells hold after it (`evaluate_eq_matching`).
-/

namespace GuardedSearch

variable {α β σ τ ω : Type}

-- ---------------------------------------------------------------------------
-- Questions
-- ---------------------------------------------------------------------------

/-- How the terms of a filter are asked for. -/
abbrev Enumerator (τ : Type) := WildcardFilter → StateM τ (Except EngineError (List TermPostings))

/-- The documents that have one of the terms. -/
def unionOf (terms : List TermPostings) : DocSet := DocSet.unionAll (terms.map (·.postings))

/-- The set of a filter. While its cell is empty the terms are asked for. -/
def WildcardFilter.bitsFrom (filter : WildcardFilter) (enumerate : Enumerator τ) :
    ExceptT EngineError (StateM (FilterCache × τ)) DocSet := fun (cells, state) =>
  match cells.get? filter with
  | some found => (.ok found, cells, state)
  | none =>
    match enumerate filter state with
    | (.error e, state) => (.error e, cells, state)
    | (.ok terms, state) =>
      let (found, cells) := cells.keepFirst filter (unionOf terms)
      (.ok found, cells, state)

def Engine.enumerator (engine : Engine σ) (snapshot : SnapshotHandle) : Enumerator σ :=
  fun filter => engine.enumerate snapshot filter.field filter.pattern

theorem WildcardFilter.bits_eq (filter : WildcardFilter) (engine : Engine σ)
    (snapshot : SnapshotHandle) :
    filter.bits engine snapshot = filter.bitsFrom (engine.enumerator snapshot) := rfl

namespace Segment

mutual

/-- The evaluation of a query that asks for the terms of its filters, and ends with the first
question that fails. -/
def evaluateFrom (s : Segment) (enumerate : Enumerator τ) :
    NativeQuery → ExceptT EngineError (StateM (FilterCache × τ)) DocSet
  | .all => return s.live
  | .none => return ∅
  | .term field value => return s.withTerm field value
  | .startsWith field stem => return postingsOf (s.termsUnder field stem)
  | .range field lower upper => return postingsOf (s.termsBetween field lower upper)
  | .present field => return s.withField field
  | .wildcard filter => do
    let found ← filter.bitsFrom enumerate
    return found ∩ s.live
  | .bool must should mustNot =>
    if must.isEmpty && should.isEmpty then return ∅
    else do
      let musts ← evaluateAllFrom s enumerate must
      let shoulds ← evaluateAllFrom s enumerate should
      let mustNots ← evaluateAllFrom s enumerate mustNot
      return mustNots.foldl (· \ ·) (within musts shoulds)

def evaluateAllFrom (s : Segment) (enumerate : Enumerator τ) :
    List NativeQuery → ExceptT EngineError (StateM (FilterCache × τ)) (List DocSet)
  | [] => return []
  | query :: rest => do
    let found ← evaluateFrom s enumerate query
    let others ← evaluateAllFrom s enumerate rest
    return found :: others

end

end Segment

/-- How a computation from `w` ends: with a value and a state, or with an error and a state. -/
def Ends (compute : ExceptT EngineError (StateM ω) α) (w : ω) (Ok : α → ω → Prop)
    (Fail : EngineError → ω → Prop) : Prop :=
  match compute w with
  | (.ok a, w') => Ok a w'
  | (.error e, w') => Fail e w'

namespace Ends

variable {compute : ExceptT EngineError (StateM ω) α} {w w' : ω} {Ok Mid : α → ω → Prop}
  {Fail : EngineError → ω → Prop}

theorem pure {a : α} (h : Ok a w) : Ends (pure a) w Ok Fail := h

theorem bind {f : α → ExceptT EngineError (StateM ω) β} {Ok : β → ω → Prop}
    (hcompute : Ends compute w Mid Fail) (hf : ∀ a w', Mid a w' → Ends (f a) w' Ok Fail) :
    Ends (compute >>= f) w Ok Fail := by
  have hrun : (compute >>= f) w =
      match compute w with
      | (.ok a, w') => f a w'
      | (.error e, w') => (.error e, w') := by
    change (match compute w with | (r, w') => ExceptT.bindCont f r w') = _
    rcases compute w with ⟨_ | _, _⟩ <;> rfl
  rw [Ends] at hcompute
  rw [Ends, hrun]
  generalize compute w = ended at hcompute ⊢
  rcases ended with ⟨e | a, w'⟩
  · exact hcompute
  · exact hf a w' hcompute

theorem of_ok (h : Ends compute w Ok Fail) {a : α} (hrun : compute w = (.ok a, w')) : Ok a w' := by
  simpa only [Ends, hrun] using h

theorem of_error (h : Ends compute w Ok Fail) {e : EngineError}
    (hrun : compute w = (.error e, w')) : Fail e w' := by
  simpa only [Ends, hrun] using h

end Ends

-- ---------------------------------------------------------------------------
-- Evaluation by questions
-- ---------------------------------------------------------------------------

section Reads

variable {filter : WildcardFilter} {enumerate : Enumerator τ} {cells : FilterCache}
  {state state' : τ}

theorem WildcardFilter.bitsFrom_of_some {found : DocSet} (h : cells.get? filter = some found) :
    filter.bitsFrom enumerate (cells, state) = (.ok found, cells, state) := by
  simp only [bitsFrom, h]

theorem WildcardFilter.bitsFrom_of_error (h : cells.get? filter = none) {e : EngineError}
    (hask : enumerate filter state = (.error e, state')) :
    filter.bitsFrom enumerate (cells, state) = (.error e, cells, state') := by
  simp only [bitsFrom, h, hask]

theorem WildcardFilter.bitsFrom_of_ok (h : cells.get? filter = none) {terms : List TermPostings}
    (hask : enumerate filter state = (.ok terms, state')) :
    filter.bitsFrom enumerate (cells, state) =
      (.ok (unionOf terms), (cells.keepFirst filter (unionOf terms)).2, state') := by
  have hfound := FilterCache.keepFirst_fst cells filter (unionOf terms)
  rw [h, Option.getD_none] at hfound
  simp only [bitsFrom, h, hask, hfound]

end Reads

/-- A filter is read: its cell has a set, or the question fails, or the answer is kept. -/
theorem WildcardFilter.bitsFrom_cases (filter : WildcardFilter) (enumerate : Enumerator τ)
    (cells : FilterCache) (state : τ) :
    (∃ found, cells.get? filter = some found ∧
      filter.bitsFrom enumerate (cells, state) = (.ok found, cells, state)) ∨
    (cells.get? filter = none ∧ ∃ e state', enumerate filter state = (.error e, state') ∧
      filter.bitsFrom enumerate (cells, state) = (.error e, cells, state')) ∨
    (cells.get? filter = none ∧ ∃ terms state', enumerate filter state = (.ok terms, state') ∧
      filter.bitsFrom enumerate (cells, state) =
        (.ok (unionOf terms), (cells.keepFirst filter (unionOf terms)).2, state')) := by
  cases hget : cells.get? filter with
  | some found => exact .inl ⟨found, rfl, bitsFrom_of_some hget⟩
  | none =>
    rcases hask : enumerate filter state with ⟨e | terms, state'⟩
    · exact .inr (.inl ⟨rfl, e, state', rfl, bitsFrom_of_error hget hask⟩)
    · exact .inr (.inr ⟨rfl, terms, state', rfl, bitsFrom_of_ok hget hask⟩)

def Segment.matchesOf (s : Segment) (filter : WildcardFilter) : DocSet :=
  postingsOf (s.termsMatching filter.field filter.pattern)

namespace Segment

variable {s : Segment} {enumerate : Enumerator τ} {P : FilterCache × τ → Prop}
  {filters : List WildcardFilter}

/-- The questions about a filter keep an invariant, and what they find is what the segment finds. -/
def Answers (s : Segment) (enumerate : Enumerator τ) (P : FilterCache × τ → Prop)
    (filter : WildcardFilter) : Prop :=
  ∀ w, P w → Ends (filter.bitsFrom enumerate) w
    (fun found w' => P w' ∧ (found, w'.1) = w.1.keepFirst filter (s.matchesOf filter))
    (fun _ w' => P w')

/-- The last question about one of the filters has failed with this error. -/
def LastFailed (enumerate : Enumerator τ) (P : FilterCache × τ → Prop)
    (filters : List WildcardFilter) (e : EngineError) (w' : FilterCache × τ) : Prop :=
  P w' ∧ ∃ filter ∈ filters, ∃ w, P w ∧ filter.bitsFrom enumerate w = (.error e, w')

-- The invariant holds before and after each question, so it goes along from clause to clause.
mutual

/-- An evaluation by questions ends as the evaluation does, or with the first question that
fails. -/
theorem evaluateFrom_ends (h : ∀ f ∈ filters, s.Answers enumerate P f) :
    (query : NativeQuery) → (∀ f ∈ query.filters, f ∈ filters) →
      ∀ {w : FilterCache × τ}, P w → Ends (s.evaluateFrom enumerate query) w
        (fun found w' => P w' ∧ (found, w'.1) = s.evaluate query w.1)
        (LastFailed enumerate P filters)
  | .all, _, _, hw => .pure ⟨hw, rfl⟩
  | .none, _, _, hw => .pure ⟨hw, rfl⟩
  | .term .., _, _, hw => .pure ⟨hw, rfl⟩
  | .startsWith .., _, _, hw => .pure ⟨hw, rfl⟩
  | .range .., _, _, hw => .pure ⟨hw, rfl⟩
  | .present _, _, _, hw => .pure ⟨hw, rfl⟩
  | .wildcard filter, hmem, w, hw => by
    have hfilter := hmem filter (by simp [NativeQuery.filters])
    have hread : Ends (filter.bitsFrom enumerate) w
        (fun found w' => P w' ∧ (found, w'.1) = w.1.keepFirst filter (s.matchesOf filter))
        (LastFailed enumerate P filters) := by
      have hends := h filter hfilter w hw
      rcases hrun : filter.bitsFrom enumerate w with ⟨e | found, w'⟩
      all_goals simp only [Ends, hrun] at hends ⊢
      · exact ⟨hends, filter, hfilter, w, hw, hrun⟩
      · exact hends
    rw [evaluateFrom]
    refine hread.bind fun found w' => ?_
    rintro ⟨hw', hfound⟩
    have hevaluate : s.evaluate (.wildcard filter) w.1 =
        ((w.1.keepFirst filter (s.matchesOf filter)).1 ∩ s.live,
          (w.1.keepFirst filter (s.matchesOf filter)).2) := rfl
    exact .pure ⟨hw', by rw [hevaluate, ← hfound]⟩
  | .bool must should mustNot, hmem, w, hw => by
    by_cases hempty : (must.isEmpty && should.isEmpty) = true
    · rw [evaluateFrom, if_pos hempty]
      refine .pure ⟨hw, ?_⟩
      rw [evaluate, if_pos hempty]
      rfl
    · simp only [NativeQuery.filters, List.mem_append] at hmem
      rw [evaluateFrom, if_neg hempty, evaluate_bool s _ _ _ _ hempty]
      refine (evaluateAllFrom_ends h must (fun f hf => hmem f (.inl (.inl hf))) hw).bind
        fun musts w₁ => ?_
      rintro ⟨hw₁, hmusts⟩
      refine (evaluateAllFrom_ends h should (fun f hf => hmem f (.inl (.inr hf))) hw₁).bind
        fun shoulds w₂ => ?_
      rintro ⟨hw₂, hshoulds⟩
      refine (evaluateAllFrom_ends h mustNot (fun f hf => hmem f (.inr hf)) hw₂).bind
        fun mustNots w₃ => ?_
      rintro ⟨hw₃, hmustNots⟩
      refine .pure ⟨hw₃, ?_⟩
      simp only [← hmusts, ← hshoulds, ← hmustNots]

theorem evaluateAllFrom_ends (h : ∀ f ∈ filters, s.Answers enumerate P f) :
    (queries : List NativeQuery) → (∀ f ∈ NativeQuery.filtersOf queries, f ∈ filters) →
      ∀ {w : FilterCache × τ}, P w → Ends (s.evaluateAllFrom enumerate queries) w
        (fun founds w' => P w' ∧ (founds, w'.1) = s.evaluateAll queries w.1)
        (LastFailed enumerate P filters)
  | [], _, _, hw => .pure ⟨hw, rfl⟩
  | query :: rest, hmem, w, hw => by
    simp only [NativeQuery.filtersOf, List.mem_append] at hmem
    rw [evaluateAllFrom]
    refine (evaluateFrom_ends h query (fun f hf => hmem f (.inl hf)) hw).bind fun found w₁ => ?_
    rintro ⟨hw₁, hfound⟩
    refine (evaluateAllFrom_ends h rest (fun f hf => hmem f (.inr hf)) hw₁).bind
      fun others w₂ => ?_
    rintro ⟨hw₂, hothers⟩
    have hevaluate : s.evaluateAll (query :: rest) w.1 =
        ((s.evaluate query w.1).1 :: (s.evaluateAll rest (s.evaluate query w.1).2).1,
          (s.evaluateAll rest (s.evaluate query w.1).2).2) := rfl
    exact .pure ⟨hw₂, by rw [hevaluate, ← hfound, ← hothers]⟩

end

-- ---------------------------------------------------------------------------
-- Evaluation by sets
-- ---------------------------------------------------------------------------

mutual

/-- The documents of a segment that match a query whose filters have these sets. -/
def matching (s : Segment) (sets : WildcardFilter → DocSet) : NativeQuery → DocSet
  | .all => s.live
  | .none => ∅
  | .term field value => s.withTerm field value
  | .startsWith field stem => postingsOf (s.termsUnder field stem)
  | .range field lower upper => postingsOf (s.termsBetween field lower upper)
  | .present field => s.withField field
  | .wildcard filter => sets filter ∩ s.live
  | .bool must should mustNot =>
    if must.isEmpty && should.isEmpty then ∅
    else (matchingEach s sets mustNot).foldl (· \ ·)
      (within (matchingEach s sets must) (matchingEach s sets should))

def matchingEach (s : Segment) (sets : WildcardFilter → DocSet) : List NativeQuery → List DocSet
  | [] => []
  | query :: rest => matching s sets query :: matchingEach s sets rest

end

/-- The sets of filters: what their cells hold, and what the segment finds where they hold none. -/
def setsOf (s : Segment) (cells : FilterCache) (filter : WildcardFilter) : DocSet :=
  (cells.get? filter).getD (s.matchesOf filter)

mutual

/-- An evaluation finds what matches with the sets that the cells hold after it. -/
theorem evaluate_eq_matching (s : Segment) : (query : NativeQuery) → ∀ {cells later : FilterCache},
    later.Extends (s.evaluate query cells).2 →
      (s.evaluate query cells).1 = s.matching (s.setsOf later) query
  | .all, _, _, _ => rfl
  | .none, _, _, _ => rfl
  | .term .., _, _, _ => rfl
  | .startsWith .., _, _, _ => rfl
  | .range .., _, _, _ => rfl
  | .present _, _, _, _ => rfl
  | .wildcard filter, cells, later, hlater => by
    -- the later cells would answer the filter as it was answered
    have hagain : later.keepFirst filter (s.matchesOf filter) = _ :=
      FilterCache.keepFirst_again hlater
    have hfirst := FilterCache.keepFirst_fst later filter (s.matchesOf filter)
    rw [hagain] at hfirst
    change (cells.keepFirst filter (s.matchesOf filter)).1 ∩ s.live = _ ∩ s.live
    rw [hfirst, setsOf]
  | .bool must should mustNot, cells, later, hlater => by
    by_cases hempty : (must.isEmpty && should.isEmpty) = true
    · rw [evaluate, if_pos hempty, matching, if_pos hempty]
      rfl
    · rw [evaluate_bool s _ _ _ _ hempty] at hlater ⊢
      have hmustNot := evaluateAll_eq_matching s mustNot hlater
      have hlater := hlater.trans (evaluateAll_repeats s mustNot _).1
      have hshould := evaluateAll_eq_matching s should hlater
      have hmust := evaluateAll_eq_matching s must (hlater.trans (evaluateAll_repeats s should _).1)
      rw [matching, if_neg hempty]
      simp only [hmust, hshould, hmustNot]

theorem evaluateAll_eq_matching (s : Segment) : (queries : List NativeQuery) →
    ∀ {cells later : FilterCache}, later.Extends (s.evaluateAll queries cells).2 →
      (s.evaluateAll queries cells).1 = s.matchingEach (s.setsOf later) queries
  | [], _, _, _ => rfl
  | query :: rest, cells, later, hlater => by
    have hothers : (s.evaluateAll rest (s.evaluate query cells).2).1 = _ :=
      evaluateAll_eq_matching s rest hlater
    have hfound := evaluate_eq_matching s query
      (hlater.trans (evaluateAll_repeats s rest (s.evaluate query cells).2).1)
    change (s.evaluate query cells).1 :: _ = _
    rw [hfound, hothers, matchingEach]

end

end Segment

end GuardedSearch
