import GuardedSearch.Proofs.Questions

/-!
# Filters that are computed once

A shared filter is read by callers, through any engine and handle, and in the middle of queries.
The questions that this puts are noted here as they are put. `computed_once` says what the notes
of a filter are after any run: failures, and at most one success, which comes last and has filled
the cell. What the first success has found is what all later reads and queries go by.
-/

namespace GuardedSearch

variable {σ : Type}

-- ---------------------------------------------------------------------------
-- Notes
-- ---------------------------------------------------------------------------

/-- A question that was put about a filter, with its answer. -/
structure Enumeration where
  filter : WildcardFilter
  answer : Except EngineError (List TermPostings)

/-- The cells of the shared filters, the questions that were put, and the state of the engines. -/
abbrev World (σ : Type) := FilterCache × List Enumeration × σ

/-- Notes every question with its answer. -/
def noting (enumerate : Enumerator σ) : Enumerator (List Enumeration × σ) :=
  fun filter (notes, state) =>
    let (answer, state) := enumerate filter state
    (answer, notes ++ [⟨filter, answer⟩], state)

def notesOn (filter : WildcardFilter) (notes : List Enumeration) : List Enumeration :=
  notes.filter fun e => e.filter = filter

/-- A filter with these notes has this set in its cell: all questions have failed and it has none,
or they have failed up to the last, and it has what the last has found. -/
inductive AskedOnce (filter : WildcardFilter) : Option DocSet → List Enumeration → Prop
  | unanswered {failed : List Enumeration} (h : ∀ e ∈ failed, ∃ cause, e.answer = .error cause) :
      AskedOnce filter none failed
  | answered {failed : List Enumeration} {terms : List TermPostings}
      (h : ∀ e ∈ failed, ∃ cause, e.answer = .error cause) :
      AskedOnce filter (some (unionOf terms)) (failed ++ [⟨filter, .ok terms⟩])

-- ---------------------------------------------------------------------------
-- Uses
-- ---------------------------------------------------------------------------

/-- What an index enumerates when it takes some patterns only. A field that is not there is found
before the pattern is looked at. -/
def Index.enumerateUnless (index : Index) (refuses : String → Option EngineError)
    (snapshot : SnapshotHandle) (field pattern : String) :
    Except EngineError (List TermPostings) :=
  match index.segment? snapshot with
  | .error e => .error e
  | .ok s =>
    match s.index? field, refuses pattern with
    | some _, some e => .error e
    | _, _ => .ok ((s.termsMatching field pattern).map fun e => ⟨e.1, e.2⟩)

/-- The first of the documents found, in the order of a sorting. -/
def Segment.topOf (s : Segment) (found : DocSet) (limit : Nat) (sorting : Sorting) : TopDocs :=
  ⟨((s.ranked sorting found).take limit).map DocId.mk, found.size⟩

/-- What happens to the filters of a world: a caller reads one through an engine, an index that is
a part of the state executes a query, or the state changes. -/
inductive Use (σ : Type) where
  | bits (filter : WildcardFilter) (engine : Engine σ) (snapshot : SnapshotHandle)
  | execute (view : σ → Index) (snapshot : SnapshotHandle) (query : NativeQuery) (limit : Nat)
    (sorting : Sorting)
  | meanwhile (change : σ → σ)

namespace Use

def filters : Use σ → List WildcardFilter
  | bits filter _ _ => [filter]
  | execute _ _ query _ _ => query.filters
  | meanwhile _ => []

end Use

/-- None of the others has the filter's cell. -/
def WildcardFilter.OwnsCell (filter : WildcardFilter) (others : List WildcardFilter) : Prop :=
  ∀ g ∈ others, g.cell = filter.cell → g = filter

instance (filter : WildcardFilter) (others : List WildcardFilter) :
    Decidable (filter.OwnsCell others) :=
  inferInstanceAs (Decidable (∀ g ∈ others, g.cell = filter.cell → g = filter))

section Runs

-- the errors of the patterns that an index does not take
variable (refuses : String → Option EngineError)

def indexEnumerator (view : σ → Index) (snapshot : SnapshotHandle) : Enumerator σ :=
  fun filter state =>
    ((view state).enumerateUnless refuses snapshot filter.field filter.pattern, state)

/-- A query is executed by questions, which are noted. -/
def executeFrom (view : σ → Index) (snapshot : SnapshotHandle) (query : NativeQuery) (limit : Nat)
    (sorting : Sorting) : ExceptT EngineError (StateM (World σ)) TopDocs := fun w =>
  match (view w.2.2).segment? snapshot with
  | .error e => (.error e, w)
  | .ok s =>
    let evaluate := s.evaluateFrom (noting (indexEnumerator refuses view snapshot)) query
    (evaluate >>= fun found => pure (s.topOf found limit sorting)) w

def Use.after : Use σ → World σ → World σ
  | bits filter engine snapshot, w => (filter.bitsFrom (noting (engine.enumerator snapshot)) w).2
  | execute view snapshot query limit sorting, w =>
    (executeFrom refuses view snapshot query limit sorting w).2
  | meanwhile change, (cells, notes, state) => (cells, notes, change state)

/-- The same without notes, where an index takes all patterns. -/
def Use.step : Use σ → FilterCache × σ → FilterCache × σ
  | bits filter engine snapshot, w => (filter.bits engine snapshot w).2
  | execute view snapshot query limit sorting, (cells, state) =>
    (((view state).execute snapshot query limit sorting cells).2, state)
  | meanwhile change, (cells, state) => (cells, change state)

def runUses (uses : List (Use σ)) (w : World σ) : World σ :=
  uses.foldl (fun w use => use.after refuses w) w

end Runs

-- ---------------------------------------------------------------------------
-- Single reads
-- ---------------------------------------------------------------------------

/-- Reads that come upon this state keep what `P` says of the cells and the notes. -/
def WildcardFilter.ReadKeeps (g : WildcardFilter) (enumerate : Enumerator σ) (state : σ)
    (P : FilterCache → List Enumeration → Prop) : Prop :=
  ∀ w : World σ, w.2.2 = state → P w.1 w.2.1 →
    P (g.bitsFrom (noting enumerate) w).2.1 (g.bitsFrom (noting enumerate) w).2.2.1

section Reads

variable {f g : WildcardFilter} {enumerate : Enumerator σ} {w w' : World σ}

theorem noted_cases (g : WildcardFilter) (enumerate : Enumerator σ) (w : World σ) :
    (∃ found, w.1.get? g = some found ∧ g.bitsFrom (noting enumerate) w = (.ok found, w)) ∨
    (w.1.get? g = none ∧ ∃ e state, enumerate g w.2.2 = (.error e, state) ∧
      g.bitsFrom (noting enumerate) w = (.error e, w.1, w.2.1 ++ [⟨g, .error e⟩], state)) ∨
    (w.1.get? g = none ∧ ∃ terms state, enumerate g w.2.2 = (.ok terms, state) ∧
      g.bitsFrom (noting enumerate) w =
        (.ok (unionOf terms), (w.1.keepFirst g (unionOf terms)).2,
          w.2.1 ++ [⟨g, .ok terms⟩], state)) := by
  obtain ⟨cells, notes, state⟩ := w
  rcases g.bitsFrom_cases (noting enumerate) cells (notes, state) with
    ⟨found, hget, hrun⟩ | ⟨hget, e, ⟨notes', state'⟩, hask, hrun⟩ |
      ⟨hget, terms, ⟨notes', state'⟩, hask, hrun⟩
  · exact .inl ⟨found, hget, hrun⟩
  all_goals
    rcases henumerate : enumerate g state with ⟨answer, after⟩
    simp only [noting, henumerate] at hask
    cases hask
  · exact .inr (.inl ⟨hget, e, _, rfl, hrun⟩)
  · exact .inr (.inr ⟨hget, terms, _, rfl, hrun⟩)

/-- To note the questions changes nothing else. -/
theorem bitsFrom_noting (g : WildcardFilter) (enumerate : Enumerator σ) (w : World σ) :
    g.bitsFrom enumerate (w.1, w.2.2) =
      ((g.bitsFrom (noting enumerate) w).1, (g.bitsFrom (noting enumerate) w).2.1,
        (g.bitsFrom (noting enumerate) w).2.2.2) := by
  rcases noted_cases g enumerate w with ⟨_, hget, hrun⟩ | ⟨hget, _, _, hask, hrun⟩ |
    ⟨hget, _, _, hask, hrun⟩
  all_goals rw [hrun]
  · exact WildcardFilter.bitsFrom_of_some hget
  · exact WildcardFilter.bitsFrom_of_error hget hask
  · exact WildcardFilter.bitsFrom_of_ok hget hask

theorem notesOn_append_of_ne (h : g ≠ f) (notes : List Enumeration)
    (answer : Except EngineError (List TermPostings)) :
    notesOn f (notes ++ [⟨g, answer⟩]) = notesOn f notes := by
  simp [notesOn, List.filter_append, h]

theorem notesOn_append_self (notes : List Enumeration)
    (answer : Except EngineError (List TermPostings)) :
    notesOn f (notes ++ [⟨f, answer⟩]) = notesOn f notes ++ [⟨f, answer⟩] := by
  simp [notesOn, List.filter_append]

theorem read_other (hne : g.cell ≠ f.cell) (enumerate : Enumerator σ) (w : World σ) :
    (g.bitsFrom (noting enumerate) w).2.1.get? f = w.1.get? f ∧
      notesOn f (g.bitsFrom (noting enumerate) w).2.2.1 = notesOn f w.2.1 := by
  have hfilter : g ≠ f := fun heq => hne (congrArg _ heq)
  rcases noted_cases g enumerate w with ⟨_, -, hrun⟩ | ⟨-, _, _, -, hrun⟩ | ⟨-, _, _, -, hrun⟩
  all_goals rw [hrun]
  · exact ⟨rfl, rfl⟩
  · exact ⟨rfl, notesOn_append_of_ne hfilter ..⟩
  · exact ⟨FilterCache.get?_keepFirst_of_ne hne _, notesOn_append_of_ne hfilter ..⟩

theorem AskedOnce.forall_error {notes : List Enumeration} (h : AskedOnce f none notes) :
    ∀ e ∈ notes, ∃ cause, e.answer = .error cause := by
  cases h
  assumption

/-- A read fills the cell of its filter with the first success, and never asks again. -/
theorem AskedOnce.read (hshared : f.cell.isSome) (hown : g.cell = f.cell → g = f)
    (enumerate : Enumerator σ) (h : AskedOnce f (w.1.get? f) (notesOn f w.2.1)) :
    AskedOnce f ((g.bitsFrom (noting enumerate) w).2.1.get? f)
      (notesOn f (g.bitsFrom (noting enumerate) w).2.2.1) := by
  by_cases hcell : g.cell = f.cell
  · obtain rfl := hown hcell
    rcases noted_cases g enumerate w with ⟨_, -, hrun⟩ | ⟨hget, e, _, -, hrun⟩ |
      ⟨hget, terms, _, -, hrun⟩
    all_goals rw [hrun]
    · exact h
    all_goals
      rw [hget] at h
      have hfailed := h.forall_error
    · simp only [hget, notesOn_append_self]
      refine .unanswered fun e' he' => ?_
      rcases List.mem_append.mp he' with he' | he'
      · exact hfailed e' he'
      · exact ⟨e, by rw [List.mem_singleton.mp he']⟩
    · simp only [FilterCache.get?_keepFirst_self hget hshared, notesOn_append_self]
      exact .answered hfailed
  · obtain ⟨hget, hnotes⟩ := read_other hcell enumerate w
    rwa [hget, hnotes]

/-- Once the cell has a set, no read changes it or asks about its filter. -/
theorem read_answered {found : DocSet} (hown : g.cell = f.cell → g = f)
    (enumerate : Enumerator σ) (h : w.1.get? f = some found) :
    (g.bitsFrom (noting enumerate) w).2.1.get? f = some found ∧
      notesOn f (g.bitsFrom (noting enumerate) w).2.2.1 = notesOn f w.2.1 := by
  by_cases hcell : g.cell = f.cell
  · obtain rfl := hown hcell
    rcases noted_cases g enumerate w with ⟨_, -, hrun⟩ | ⟨hget, -⟩ | ⟨hget, -⟩
    · rw [hrun]
      exact ⟨h, rfl⟩
    all_goals simp [hget] at h
  · obtain ⟨hget, hnotes⟩ := read_other hcell enumerate w
    exact ⟨hget.trans h, hnotes⟩

end Reads

-- ---------------------------------------------------------------------------
-- Queries
-- ---------------------------------------------------------------------------

section Queries

variable {view : σ → Index} (refuses : String → Option EngineError) {snapshot : SnapshotHandle}
  {query : NativeQuery} (limit : Nat) (sorting : Sorting) {w : World σ} {s : Segment}

theorem unionOf_map (entries : List (String × DocSet)) :
    unionOf (entries.map fun e => ⟨e.1, e.2⟩) = Segment.postingsOf entries := by
  rw [unionOf, List.map_map]
  rfl

theorem Index.enumerateUnless_none (index : Index) :
    index.enumerateUnless (fun _ => none) = index.enumerate := by
  funext snapshot field pattern
  unfold enumerateUnless enumerate
  cases index.segment? snapshot with
  | error e => rfl
  | ok s =>
    simp only
    cases s.index? field <;> rfl

theorem Index.enumerateUnless_cases {index : Index} (hs : index.segment? snapshot = .ok s)
    (filter : WildcardFilter) :
    (∃ e, refuses filter.pattern = some e ∧
      index.enumerateUnless refuses snapshot filter.field filter.pattern = .error e) ∨
    ∃ terms, unionOf terms = s.matchesOf filter ∧
      index.enumerateUnless refuses snapshot filter.field filter.pattern = .ok terms := by
  simp only [enumerateUnless, hs]
  cases s.index? filter.field with
  | none => exact .inr ⟨_, unionOf_map _, rfl⟩
  | some index =>
    cases refuses filter.pattern with
    | none => exact .inr ⟨_, unionOf_map _, rfl⟩
    | some e => exact .inl ⟨e, rfl, rfl⟩

section Segment

variable {P : FilterCache → List Enumeration → Prop} {state : σ}
  (hs : (view state).segment? snapshot = .ok s)

include hs

theorem index_read_cases (g : WildcardFilter) {w : World σ} (hstate : w.2.2 = state) :
    (∃ found, w.1.get? g = some found ∧
      g.bitsFrom (noting (indexEnumerator refuses view snapshot)) w = (.ok found, w)) ∨
    (w.1.get? g = none ∧ ∃ e, refuses g.pattern = some e ∧
      g.bitsFrom (noting (indexEnumerator refuses view snapshot)) w =
        (.error e, w.1, w.2.1 ++ [⟨g, .error e⟩], state)) ∨
    (w.1.get? g = none ∧ ∃ terms,
      g.bitsFrom (noting (indexEnumerator refuses view snapshot)) w =
        (.ok (s.matchesOf g), (w.1.keepFirst g (s.matchesOf g)).2, w.2.1 ++ [⟨g, .ok terms⟩],
          state)) := by
  have hask := Index.enumerateUnless_cases refuses hs g
  rcases noted_cases g (indexEnumerator refuses view snapshot) w with
    hsome | ⟨hget, e, state', hanswer, hrun⟩ | ⟨hget, terms, state', hanswer, hrun⟩
  · exact .inl hsome
  all_goals
    obtain ⟨hanswer, hsame⟩ := Prod.mk.inj hanswer
    rw [hstate] at hanswer hsame
    rw [hanswer] at hask
    subst hsame
  · obtain ⟨e', hrefuses, heq⟩ := hask.resolve_right (by rintro ⟨_, -, heq⟩; cases heq)
    cases heq
    exact .inr (.inl ⟨hget, e, hrefuses, hrun⟩)
  · obtain ⟨terms', hterms, heq⟩ := hask.resolve_left (by rintro ⟨_, -, heq⟩; cases heq)
    cases heq
    exact .inr (.inr ⟨hget, terms, hterms ▸ hrun⟩)

/-- The questions that an index puts to itself have the answers of the segment, unless the pattern
is refused. -/
theorem answers_of_read {g : WildcardFilter}
    (hread : g.ReadKeeps (indexEnumerator refuses view snapshot) state P) :
    s.Answers (noting (indexEnumerator refuses view snapshot))
      (fun w => w.2.2 = state ∧ P w.1 w.2.1) g := by
  rintro w ⟨hstate, hw⟩
  have hafter := hread w hstate hw
  rcases index_read_cases refuses hs g hstate with
    ⟨found, hget, hrun⟩ | ⟨-, e, -, hrun⟩ | ⟨hget, terms, hrun⟩
  all_goals
    rw [hrun] at hafter
    rw [Ends, hrun]
  · exact ⟨⟨hstate, hafter⟩, (FilterCache.keepFirst_of_some hget).symm⟩
  · exact ⟨rfl, hafter⟩
  · refine ⟨⟨rfl, hafter⟩, Prod.ext ?_ rfl⟩
    rw [FilterCache.keepFirst_fst, hget, Option.getD_none]

theorem refused_of_read {g : WildcardFilter} {e : EngineError} {w w' : World σ}
    (hstate : w.2.2 = state)
    (h : g.bitsFrom (noting (indexEnumerator refuses view snapshot)) w = (.error e, w')) :
    refuses g.pattern = some e ∧ w.1.get? g = none ∧
      w' = (w.1, w.2.1 ++ [⟨g, .error e⟩], state) := by
  rcases index_read_cases refuses hs g hstate with
    ⟨found, -, hrun⟩ | ⟨hget, e', hrefuses, hrun⟩ | ⟨-, terms, hrun⟩
  all_goals
    rw [h] at hrun
    cases hrun
  exact ⟨hrefuses, hget, rfl⟩

/-- A query ends with the answer of the segment, or with the last of its questions. -/
theorem executeFrom_ends
    (hread : ∀ g ∈ query.filters, g.ReadKeeps (indexEnumerator refuses view snapshot) state P)
    (hstate : w.2.2 = state) (hw : P w.1 w.2.1) :
    Ends (executeFrom refuses view snapshot query limit sorting) w
      (fun top w' => (w'.2.2 = state ∧ P w'.1 w'.2.1) ∧
        w'.1 = (s.evaluate query w.1).2 ∧ top = s.topOf (s.evaluate query w.1).1 limit sorting)
      (Segment.LastFailed (noting (indexEnumerator refuses view snapshot))
        (fun w => w.2.2 = state ∧ P w.1 w.2.1) query.filters) := by
  have hends := Segment.evaluateFrom_ends
    (fun g hg => answers_of_read refuses hs (hread g hg)) query (fun _ hg => hg) ⟨hstate, hw⟩
  rw [Ends, executeFrom]
  simp only [hstate, hs]
  refine hends.bind fun found w' => ?_
  rintro ⟨hkept, hfound⟩
  refine .pure ⟨hkept, ?_⟩
  rw [← hfound]
  exact ⟨rfl, rfl⟩

theorem executeFrom_keeps
    (hread : ∀ g ∈ query.filters, g.ReadKeeps (indexEnumerator refuses view snapshot) state P)
    (hstate : w.2.2 = state) (hw : P w.1 w.2.1) :
    (executeFrom refuses view snapshot query limit sorting w).2.2.2 = state ∧
      P (executeFrom refuses view snapshot query limit sorting w).2.1
        (executeFrom refuses view snapshot query limit sorting w).2.2.1 := by
  have hends := executeFrom_ends refuses limit sorting hs hread hstate hw
  rcases hrun : executeFrom refuses view snapshot query limit sorting w with ⟨e | top, w'⟩
  · exact (hends.of_error hrun).1
  · exact (hends.of_ok hrun).1

theorem execute_topOf (cells : FilterCache) :
    (view state).execute snapshot query limit sorting cells =
      (.ok (s.topOf (s.evaluate query cells).1 limit sorting), (s.evaluate query cells).2) := by
  rw [Index.execute_eq hs, Segment.top_run]
  rfl

end Segment

/-- A query that succeeds is executed as an index does it, and its answer is what matches with the
sets that the cells hold after it. -/
theorem executeFrom_ok {top : TopDocs} {w' : World σ}
    (hrun : executeFrom refuses view snapshot query limit sorting w = (.ok top, w')) :
    w'.2.2 = w.2.2 ∧ (view w.2.2).execute snapshot query limit sorting w.1 = (.ok top, w'.1) ∧
      ∃ s, (view w.2.2).segment? snapshot = .ok s ∧
        top = s.topOf (s.matching (s.setsOf w'.1) query) limit sorting := by
  cases hs : (view w.2.2).segment? snapshot with
  | error e =>
    rw [executeFrom, hs] at hrun
    cases hrun
  | ok s =>
    have hends : Ends (executeFrom refuses view snapshot query limit sorting) w _ _ :=
      executeFrom_ends (P := fun _ _ => True) refuses limit sorting hs (fun _ _ _ _ _ => trivial)
        rfl trivial
    obtain ⟨⟨hstate, -⟩, hcells, htop⟩ := hends.of_ok hrun
    refine ⟨hstate, by rw [execute_topOf limit sorting hs, ← hcells, ← htop], s, rfl, ?_⟩
    rw [htop, hcells, Segment.evaluate_eq_matching s query FilterCache.Extends.refl]

/-- A query has ended with an error: its handle is not open, and nothing was done; or the index
does not take the pattern of one of its filters, and this was the last question. -/
inductive QueryFailed (view : σ → Index) (snapshot : SnapshotHandle) (query : NativeQuery)
    (w : World σ) (e : EngineError) : World σ → Prop
  | closed (h : (view w.2.2).segment? snapshot = .error e) : QueryFailed view snapshot query w e w
  | refused {g : WildcardFilter} {cells : FilterCache} {earlier : List Enumeration}
      (hg : g ∈ query.filters) (h : refuses g.pattern = some e) (hcell : cells.get? g = none) :
      QueryFailed view snapshot query w e (cells, w.2.1 ++ earlier ++ [⟨g, .error e⟩], w.2.2)

theorem executeFrom_fails {e : EngineError} {w' : World σ}
    (hrun : executeFrom refuses view snapshot query limit sorting w = (.error e, w')) :
    QueryFailed refuses view snapshot query w e w' := by
  cases hs : (view w.2.2).segment? snapshot with
  | error e' =>
    rw [executeFrom, hs] at hrun
    cases hrun
    exact .closed hs
  | ok s =>
    -- notes are only added at the end
    let Later (_ : FilterCache) (notes : List Enumeration) : Prop := ∃ more, notes = w.2.1 ++ more
    have hread : ∀ g ∈ query.filters,
        g.ReadKeeps (indexEnumerator refuses view snapshot) w.2.2 Later := by
      intro g _ w₁ _ hw₁
      obtain ⟨more, hmore⟩ := hw₁
      rcases noted_cases g (indexEnumerator refuses view snapshot) w₁ with
        ⟨_, -, hread⟩ | ⟨-, _, _, -, hread⟩ | ⟨-, _, _, -, hread⟩
      all_goals
        simp only [Later, hread, hmore, List.append_assoc]
        exact ⟨_, rfl⟩
    have hends := executeFrom_ends refuses limit sorting hs hread rfl ⟨[], by simp⟩
    obtain ⟨-, g, hg, w₁, ⟨hstate, earlier, hearlier⟩, hlast⟩ := hends.of_error hrun
    obtain ⟨hrefuses, hcell, rfl⟩ := refused_of_read refuses hs hstate hlast
    rw [hearlier]
    exact .refused hg hrefuses hcell

/-- Where no pattern is refused, a query is executed as an index does it. -/
theorem executeFrom_none (w : World σ) :
    ∃ notes, executeFrom (fun _ => none) view snapshot query limit sorting w =
      (((view w.2.2).execute snapshot query limit sorting w.1).1,
        ((view w.2.2).execute snapshot query limit sorting w.1).2, notes, w.2.2) := by
  rcases hrun : executeFrom (fun _ => none) view snapshot query limit sorting w with ⟨e | top, w'⟩
  · cases executeFrom_fails _ limit sorting hrun with
    | closed hclosed =>
      refine ⟨w.2.1, ?_⟩
      rw [Index.execute, hclosed]
      rfl
    | refused _ hrefuses => cases hrefuses
  · obtain ⟨hstate, hexecute, -⟩ := executeFrom_ok _ limit sorting hrun
    refine ⟨w'.2.1, ?_⟩
    rw [hexecute, ← hstate]

-- ---------------------------------------------------------------------------
-- Runs
-- ---------------------------------------------------------------------------

theorem after_none (use : Use σ) (w : World σ) :
    ((use.after (fun _ => none) w).1, (use.after (fun _ => none) w).2.2) =
      use.step (w.1, w.2.2) := by
  cases use with
  | bits filter engine snapshot =>
    rw [Use.step, filter.bits_eq, bitsFrom_noting]
    rfl
  | meanwhile change => rfl
  | execute view snapshot query limit sorting =>
    obtain ⟨notes, hrun⟩ := executeFrom_none limit sorting w
    rw [Use.after, hrun]
    rfl

/-- Where no pattern is refused, a run goes on as it does without notes. -/
theorem runUses_none (uses : List (Use σ)) (w : World σ) :
    ((runUses (fun _ => none) uses w).1, (runUses (fun _ => none) uses w).2.2) =
      uses.foldl (fun w use => use.step w) (w.1, w.2.2) := by
  induction uses generalizing w with
  | nil => rfl
  | cons use rest ih =>
    rw [List.foldl_cons, ← after_none]
    exact ih _

/-- What every read of a filter of the use keeps, the use keeps. -/
theorem after_keeps {P : FilterCache → List Enumeration → Prop} {use : Use σ}
    (hread : ∀ g ∈ use.filters, ∀ enumerate (state : σ), g.ReadKeeps enumerate state P)
    (hw : P w.1 w.2.1) : P (use.after refuses w).1 (use.after refuses w).2.1 := by
  cases use with
  | bits filter engine snapshot => exact hread filter (List.mem_singleton.mpr rfl) _ _ w rfl hw
  | meanwhile change => exact hw
  | execute view snapshot query limit sorting =>
    cases hs : (view w.2.2).segment? snapshot with
    | error e => rwa [Use.after, executeFrom, hs]
    | ok s =>
      exact (executeFrom_keeps refuses limit sorting hs (fun g hg => hread g hg _ _) rfl hw).2

theorem runUses_keeps {P : FilterCache → List Enumeration → Prop} {uses : List (Use σ)}
    (hread : ∀ use ∈ uses, ∀ g ∈ use.filters, ∀ enumerate (state : σ),
      g.ReadKeeps enumerate state P)
    (hw : P w.1 w.2.1) :
    P (runUses refuses uses w).1 (runUses refuses uses w).2.1 := by
  induction uses generalizing w with
  | nil => exact hw
  | cons use rest ih =>
    refine ih (fun use huse => hread use (List.mem_cons_of_mem _ huse)) ?_
    exact after_keeps refuses (hread use List.mem_cons_self) hw

end Queries

/-- What a use finds for a filter, when it is the first to find something. -/
inductive Use.Finds (filter : WildcardFilter) (state : σ) : Use σ → DocSet → Prop
  | bits {engine : Engine σ} {snapshot : SnapshotHandle} {terms : List TermPostings} {state' : σ}
      (h : engine.enumerate snapshot filter.field filter.pattern state = (.ok terms, state')) :
      Finds filter state (.bits filter engine snapshot) (unionOf terms)
  | execute {view : σ → Index} {snapshot : SnapshotHandle} {query : NativeQuery} {limit : Nat}
      {sorting : Sorting} {s : Segment} (hs : (view state).segment? snapshot = .ok s)
      (h : filter ∈ query.filters) :
      Finds filter state (.execute view snapshot query limit sorting) (s.matchesOf filter)

section Filter

variable (refuses : String → Option EngineError) {f : WildcardFilter} (hshared : f.cell.isSome)
  {use : Use σ} {uses : List (Use σ)} {w : World σ} {found : DocSet}

include hshared

theorem executeFrom_finds {view : σ → Index} {snapshot : SnapshotHandle} {query : NativeQuery}
    (limit : Nat) (sorting : Sorting) (hown : f.OwnsCell query.filters) (hnone : w.1.get? f = none)
    (hfound : (executeFrom refuses view snapshot query limit sorting w).2.1.get? f = some found) :
    f ∈ query.filters ∧
      ∃ s, (view w.2.2).segment? snapshot = .ok s ∧ found = s.matchesOf f := by
  cases hs : (view w.2.2).segment? snapshot with
  | error e =>
    rw [executeFrom, hs, hnone] at hfound
    cases hfound
  | ok s =>
    -- the invariant of the questions: the cell is empty, or has what this segment finds
    let Filled (cells : FilterCache) (_ : List Enumeration) : Prop :=
      cells.get? f = none ∨ f ∈ query.filters ∧ cells.get? f = some (s.matchesOf f)
    have hread : ∀ g ∈ query.filters,
        g.ReadKeeps (indexEnumerator refuses view snapshot) w.2.2 Filled := by
      intro g hg w' hstate hw'
      by_cases hcell : g.cell = f.cell
      · obtain rfl := hown g hg hcell
        rcases index_read_cases refuses hs g hstate with
          ⟨_, -, hrun⟩ | ⟨hget, _, -, hrun⟩ | ⟨hget, _, hrun⟩
        all_goals rw [hrun]
        · exact hw'
        · exact .inl hget
        · exact .inr ⟨hg, FilterCache.get?_keepFirst_self hget hshared _⟩
      · simp only [Filled, (read_other hcell _ w').1]
        exact hw'
    have hfilled := (executeFrom_keeps refuses limit sorting hs hread rfl (.inl hnone)).2
    rcases hfilled with hget | ⟨hf, hget⟩
    · rw [hget] at hfound
      cases hfound
    · rw [hget] at hfound
      exact ⟨hf, s, rfl, (Option.some.inj hfound).symm⟩

theorem finds_of_after (hown : f.OwnsCell use.filters) (hnone : w.1.get? f = none)
    (hfound : (use.after refuses w).1.get? f = some found) :
    use.Finds f w.2.2 found := by
  cases use with
  | bits g engine snapshot =>
    rw [Use.after] at hfound
    by_cases hcell : g.cell = f.cell
    · obtain rfl := hown g (List.mem_singleton.mpr rfl) hcell
      rcases noted_cases g (engine.enumerator snapshot) w with
        ⟨first, hget, -⟩ | ⟨-, e, state, -, hrun⟩ | ⟨-, terms, state, hask, hrun⟩
      · simp [hnone] at hget
      · simp [hrun, hnone] at hfound
      · rw [hrun] at hfound
        simp only [FilterCache.get?_keepFirst_self hnone hshared, Option.some.injEq] at hfound
        exact hfound ▸ .bits hask
    · rw [(read_other hcell _ w).1, hnone] at hfound
      cases hfound
  | meanwhile change => simp [Use.after, hnone] at hfound
  | execute view snapshot query limit sorting =>
    obtain ⟨hf, s, hs, rfl⟩ := executeFrom_finds refuses hshared limit sorting hown hnone hfound
    exact .execute hs hf

/-- The set that a run leaves in the cell is what one of its uses has found. -/
theorem exists_finds (huses : ∀ use ∈ uses, f.OwnsCell use.filters) (hnone : w.1.get? f = none)
    (hfound : (runUses refuses uses w).1.get? f = some found) :
    ∃ before use after, uses = before ++ use :: after ∧
      (runUses refuses before w).1.get? f = none ∧
        use.Finds f (runUses refuses before w).2.2 found := by
  induction uses generalizing w with
  | nil =>
    rw [runUses, List.foldl_nil, hnone] at hfound
    cases hfound
  | cons use rest ih =>
    have hrest := fun use huse => huses use (List.mem_cons_of_mem _ huse)
    -- the first use after which the cell has a set: no later one changes it
    cases hfirst : (use.after refuses w).1.get? f with
    | none =>
      obtain ⟨before, last, after, rfl, hempty, hfinds⟩ := ih hrest hfirst hfound
      exact ⟨use :: before, last, after, rfl, hempty, hfinds⟩
    | some first =>
      have hkept : (runUses refuses rest (use.after refuses w)).1.get? f = some first :=
        runUses_keeps (P := fun cells _ => cells.get? f = some first) refuses
          (fun use huse g hg _ _ _ _ hw => (read_answered (hrest use huse g hg) _ hw).1) hfirst
      cases hfound.symm.trans hkept
      exact ⟨[], use, rest, rfl, hnone,
        finds_of_after refuses hshared (huses use List.mem_cons_self) hnone hfirst⟩

end Filter

-- ---------------------------------------------------------------------------
-- The law
-- ---------------------------------------------------------------------------

/-- Nothing has been found for a filter. A read that fails returns its own error, and so does a
query, and what fails about the filter leaves its cell empty. A query that succeeds has for the
filter's clauses what its own segment finds. -/
structure WildcardFilter.Uncomputed (refuses : String → Option EngineError) (f : WildcardFilter)
    (w : World σ) : Prop where
  bits_fails : ∀ (engine : Engine σ) snapshot e state,
    engine.enumerate snapshot f.field f.pattern w.2.2 = (.error e, state) →
      f.bits engine snapshot (w.1, w.2.2) = (.error e, w.1, state)
  bits_finds : ∀ (engine : Engine σ) snapshot terms state,
    engine.enumerate snapshot f.field f.pattern w.2.2 = (.ok terms, state) →
      ∃ cells, f.bits engine snapshot (w.1, w.2.2) = (.ok (unionOf terms), cells, state) ∧
        cells.get? f = some (unionOf terms)
  execute_fails : ∀ view snapshot query limit sorting e w', f.OwnsCell query.filters →
    executeFrom refuses view snapshot query limit sorting w = (.error e, w') →
      QueryFailed refuses view snapshot query w e w' ∧
        (w'.1.get? f = none ∨
          ∃ s, (view w.2.2).segment? snapshot = .ok s ∧ f ∈ query.filters ∧
            w'.1.get? f = some (s.matchesOf f))
  execute_finds : ∀ view snapshot query limit sorting top w', f.OwnsCell query.filters →
    executeFrom refuses view snapshot query limit sorting w = (.ok top, w') →
      (view w.2.2).execute snapshot query limit sorting w.1 = (.ok top, w'.1) ∧
        ∃ s, (view w.2.2).segment? snapshot = .ok s ∧ s.setsOf w'.1 f = s.matchesOf f ∧
          top = s.topOf (s.matching (s.setsOf w'.1) query) limit sorting

/-- A set has been found for a filter. It is the answer of every read, and every query that
succeeds has it for the filter's clauses, whatever its own segment would find. -/
structure WildcardFilter.Computed (refuses : String → Option EngineError) (f : WildcardFilter)
    (found : DocSet) (w : World σ) : Prop where
  bits : ∀ engine snapshot, f.bits engine snapshot (w.1, w.2.2) = (.ok found, w.1, w.2.2)
  execute : ∀ view snapshot query limit sorting top w', f.OwnsCell query.filters →
    executeFrom refuses view snapshot query limit sorting w = (.ok top, w') →
      (view w.2.2).execute snapshot query limit sorting w.1 = (.ok top, w'.1) ∧
        ∃ s, (view w.2.2).segment? snapshot = .ok s ∧ s.setsOf w'.1 f = found ∧
          top = s.topOf (s.matching (s.setsOf w'.1) query) limit sorting

section Filter

variable (refuses : String → Option EngineError) {f : WildcardFilter} {w : World σ} {found : DocSet}

theorem uncomputed_of_get?_eq_none (hshared : f.cell.isSome) (hnone : w.1.get? f = none) :
    f.Uncomputed refuses w where
  bits_fails engine snapshot e state hask := by
    have hasked : engine.enumerator snapshot f w.2.2 = (.error e, state) := hask
    rw [f.bits_eq, WildcardFilter.bitsFrom_of_error hnone hasked]
  bits_finds engine snapshot terms state hask := by
    have hasked : engine.enumerator snapshot f w.2.2 = (.ok terms, state) := hask
    rw [f.bits_eq, WildcardFilter.bitsFrom_of_ok hnone hasked]
    exact ⟨_, rfl, FilterCache.get?_keepFirst_self hnone hshared _⟩
  execute_fails view snapshot query limit sorting e w' hown hrun := by
    refine ⟨executeFrom_fails refuses limit sorting hrun, ?_⟩
    cases hget : w'.1.get? f with
    | none => exact .inl rfl
    | some found =>
      obtain ⟨hf, s, hs, rfl⟩ := executeFrom_finds refuses hshared limit sorting hown hnone
        (by rw [hrun]; exact hget)
      exact .inr ⟨s, hs, hf, rfl⟩
  execute_finds view snapshot query limit sorting top w' hown hrun := by
    obtain ⟨-, hexecute, s, hs, htop⟩ := executeFrom_ok refuses limit sorting hrun
    refine ⟨hexecute, s, hs, ?_, htop⟩
    cases hget : w'.1.get? f with
    | none => rw [Segment.setsOf, hget, Option.getD_none]
    | some found =>
      obtain ⟨-, s', hs', rfl⟩ := executeFrom_finds refuses hshared limit sorting hown hnone
        (by rw [hrun]; exact hget)
      cases hs.symm.trans hs'
      rw [Segment.setsOf, hget, Option.getD_some]

theorem computed_of_get?_eq_some (hget : w.1.get? f = some found) :
    f.Computed refuses found w where
  bits engine snapshot := by
    rw [f.bits_eq, WildcardFilter.bitsFrom_of_some hget]
  execute view snapshot query limit sorting top w' hown hrun := by
    obtain ⟨-, hexecute, s, hs, htop⟩ := executeFrom_ok refuses limit sorting hrun
    have hkept := executeFrom_keeps (P := fun cells _ => cells.get? f = some found) refuses limit
      sorting hs (fun g hg _ _ hw₁ => (read_answered (hown g hg) _ hw₁).1) rfl hget
    rw [hrun] at hkept
    exact ⟨hexecute, s, hs, by rw [Segment.setsOf, hkept.2, Option.getD_some], htop⟩

/-- A shared filter that nothing was found for is run through any uses. Its questions fail up to
the first success, which is the last of them. Until then it is uncomputed. After that it is
computed, however the run goes on: no question is put about it again, and the set is what the use
that was first to succeed has found, with the engine and the snapshot of that use. -/
theorem WildcardFilter.computed_once {uses : List (Use σ)} (hshared : f.cell.isSome)
    (huses : ∀ use ∈ uses, f.OwnsCell use.filters) {start : World σ}
    (hnone : start.1.get? f = none) (hnotes : notesOn f start.2.1 = []) :
    AskedOnce f ((runUses refuses uses start).1.get? f)
        (notesOn f (runUses refuses uses start).2.1) ∧
      ((runUses refuses uses start).1.get? f = none →
        f.Uncomputed refuses (runUses refuses uses start)) ∧
      ∀ found, (runUses refuses uses start).1.get? f = some found →
        (∃ before use after, uses = before ++ use :: after ∧
          (runUses refuses before start).1.get? f = none ∧
            use.Finds f (runUses refuses before start).2.2 found) ∧
        ∀ later : List (Use σ), (∀ use ∈ later, f.OwnsCell use.filters) →
          notesOn f (runUses refuses later (runUses refuses uses start)).2.1 =
              notesOn f (runUses refuses uses start).2.1 ∧
            f.Computed refuses found (runUses refuses later (runUses refuses uses start)) := by
  refine ⟨?_, uncomputed_of_get?_eq_none refuses hshared, fun found hfound => ⟨?_, ?_⟩⟩
  · refine runUses_keeps (P := fun cells notes => AskedOnce f (cells.get? f) (notesOn f notes))
      refuses (fun use huse g hg _ _ _ _ hw => hw.read hshared (huses use huse g hg) _) ?_
    rw [hnone, hnotes]
    exact .unanswered (by simp)
  · exact exists_finds refuses hshared huses hnone hfound
  · intro later hlater
    generalize runUses refuses uses start = w at hfound
    have hkept := runUses_keeps
      (P := fun cells notes => cells.get? f = some found ∧ notesOn f notes = notesOn f w.2.1)
      refuses (fun use huse g hg enumerate _ w₁ _ hw₁ => by
        obtain ⟨hget, hnotes⟩ := read_answered (hlater use huse g hg) enumerate hw₁.1
        exact ⟨hget, hnotes.trans hw₁.2⟩) ⟨hfound, rfl⟩
    exact ⟨hkept.2, computed_of_get?_eq_some refuses hkept.1⟩

end Filter

def refusingLong (pattern : String) : Option EngineError :=
  if pattern = "long" then some (.reported "pattern too long") else none

def anyTag : WildcardFilter := ⟨"tag", "*", some 0⟩

/-- A handle that is not open, a query that skips the clause, a query that ends before it comes to
it, a query that computes the filter, and a commit that moves the tagged document. -/
def anyTagUses : List (Use (FilterCache × Index)) :=
  [.bits anyTag Index.engine ⟨9⟩,
   .execute Prod.snd ⟨1⟩ (.bool [] [] [.wildcard anyTag]) 5 .documentOrder,
   .execute Prod.snd ⟨1⟩ (.bool [.wildcard (.fresh "tag" "long"), .wildcard anyTag] [] []) 5
    .documentOrder,
   .execute Prod.snd ⟨1⟩ (.neg (.wildcard anyTag)) 5 .documentOrder,
   .meanwhile fun (cells, index) => (cells, (index.delete "/a").2.commit.2.acquire.2)]

def anyTagStart : World (FilterCache × Index) :=
  (.empty, [], .empty, Index.tagged.commit.2.acquire.2)

/-- The filter has two notes, and keeps the second document when there is only one. -/
theorem computed_once_anyTag :
    let w := runUses refusingLong anyTagUses anyTagStart
    w.2.1.map (fun e => (e.filter, e.answer.toOption.map List.length)) =
        [(anyTag, none), (.fresh "tag" "long", none), (anyTag, some 1)] ∧
      AskedOnce anyTag (some (.insert ∅ 1)) (notesOn anyTag w.2.1) ∧
      (w.2.2.2.enumerate ⟨2⟩ "tag" "*").toOption.map unionOf = some (.insert ∅ 0) ∧
      (anyTag.bits Index.engine ⟨2⟩ (w.1, w.2.2)).1 = .ok (.insert ∅ 1) := by
  intro w
  have hget : w.1.get? anyTag = some (.insert ∅ 1) := by decide +kernel
  have huses : ∀ use ∈ anyTagUses, anyTag.OwnsCell use.filters := by decide
  have hnone : anyTagStart.1.get? anyTag = none := rfl
  have hnotes : notesOn anyTag anyTagStart.2.1 = [] := rfl
  obtain ⟨hasked, -, hfound⟩ := WildcardFilter.computed_once refusingLong rfl huses hnone hnotes
  have hcomputed : anyTag.Computed refusingLong (.insert ∅ 1) w :=
    ((hfound _ hget).2 [] (by simp)).2
  rw [hget] at hasked
  refine ⟨by decide +kernel, hasked, by decide +kernel, ?_⟩
  rw [hcomputed.bits]

end GuardedSearch
