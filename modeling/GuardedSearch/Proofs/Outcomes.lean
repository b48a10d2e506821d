import GuardedSearch.Engine

/-!
# Outcomes of computations that may fail

A sequence of steps ends with a value just when each of its steps does. The lemmas read the
success of a sequence as the success of its parts, for plain results and for steps over a state.
-/

namespace GuardedSearch

-- ---------------------------------------------------------------------------
-- Results
-- ---------------------------------------------------------------------------

namespace Outcome

theorem bind_ok {x : Except ε α} {f : α → Except ε β} {b : β} :
    x >>= f = .ok b ↔ ∃ a, x = .ok a ∧ f a = .ok b := by
  cases x <;> simp [bind, Except.bind]

theorem bind_error {x : Except ε α} {f : α → Except ε β} {error : ε} :
    x >>= f = .error error ↔ x = .error error ∨ ∃ a, x = .ok a ∧ f a = .error error := by
  cases x <;> simp [bind, Except.bind]

theorem pure_ok {a b : α} : (pure a : Except ε α) = .ok b ↔ a = b := by
  simp [pure, Except.pure]

theorem mapError_ok {x : Except ε α} {f : ε → ε'} {a : α} : x.mapError f = .ok a ↔ x = .ok a := by
  cases x with
  | error e => exact iff_of_false nofun nofun
  | ok b => exact ⟨fun h => congrArg _ (Except.ok.inj h), fun h => congrArg _ (Except.ok.inj h)⟩

theorem pure_error {a : α} {error : ε} : (pure a : Except ε α) ≠ .error error := nofun

theorem map_ok {x : Except ε α} {f : α → β} {b : β} :
    x.map f = .ok b ↔ ∃ a, x = .ok a ∧ f a = b := by
  cases x <;> simp [Except.map]

theorem toOption_eq_some {x : Except ε α} {a : α} : x.toOption = some a ↔ x = .ok a := by
  cases x <;> simp [Except.toOption]

theorem mapM_ok {f : α → Except ε β} {l : List α} {r : List β} :
    l.mapM f = .ok r ↔ l.map f = r.map .ok := by
  induction l generalizing r with
  | nil =>
    rw [List.mapM_nil, pure_ok]
    cases r <;> simp
  | cons a l ih =>
    simp only [List.mapM_cons, bind_ok, pure_ok, ih, List.map_cons]
    constructor
    · rintro ⟨b, hb, bs, hbs, rfl⟩
      rw [hb, hbs, List.map_cons]
    · intro h
      cases r with
      | nil => cases h
      | cons b bs =>
        obtain ⟨hb, hbs⟩ := List.cons.inj h
        exact ⟨b, hb, bs, hbs, rfl⟩

theorem ok_of_mapM_ok {f : α → Except ε β} {l : List α} {r : List β} (h : l.mapM f = .ok r) {a : α}
    (ha : a ∈ l) : ∃ b, f a = .ok b := by
  have hmem : f a ∈ r.map Except.ok := mapM_ok.mp h ▸ List.mem_map_of_mem ha
  obtain ⟨b, -, hb⟩ := List.mem_map.mp hmem
  exact ⟨b, hb.symm⟩

theorem exists_mapM_ok {f : α → Except ε β} {l : List α} (h : ∀ a ∈ l, ∃ b, f a = .ok b) :
    ∃ r, l.mapM f = .ok r := by
  induction l with
  | nil => exact ⟨[], rfl⟩
  | cons a l ih =>
    obtain ⟨b, hb⟩ := h a (List.mem_cons_self ..)
    obtain ⟨r, hr⟩ := ih fun c hc => h c (List.mem_cons_of_mem _ hc)
    rw [mapM_ok] at hr
    exact ⟨b :: r, mapM_ok.mpr (by rw [List.map_cons, hb, hr, List.map_cons])⟩

theorem filterMap_toOption_of_mapM_ok {f : α → Except ε β} {l : List α} {r : List β}
    (h : l.mapM f = .ok r) : l.filterMap (fun a => (f a).toOption) = r := by
  have : (l.map f).filterMap (·.toOption) = r := by
    rw [mapM_ok.mp h, List.filterMap_map]
    exact List.filterMap_some
  rwa [List.filterMap_map] at this

end Outcome

-- ---------------------------------------------------------------------------
-- Steps over a state
-- ---------------------------------------------------------------------------

namespace Step

variable {σ : Type} {α β : Type}

theorem bind_ok {x : Step σ α} {f : α → Step σ β} {b : β} {state state' : σ} :
    (x >>= f) state = (.ok b, state') ↔
      ∃ a mid, x state = (.ok a, mid) ∧ f a mid = (.ok b, state') := by
  change ExceptT.bindCont f (x state).1 (x state).2 = _ ↔ _
  rcases x state with ⟨outcome, mid⟩
  cases outcome with
  | error e =>
    constructor
    · intro h
      cases h
    · rintro ⟨a, mid, h, -⟩
      cases h
  | ok a =>
    constructor
    · exact fun h => ⟨a, mid, rfl, h⟩
    · rintro ⟨a, mid, h, h'⟩
      cases h
      exact h'

theorem pure_ok {a b : α} {state state' : σ} :
    (pure a : Step σ α) state = (.ok b, state') ↔ a = b ∧ state = state' := by
  change (Except.ok a, state) = _ ↔ _
  simp

theorem ofExcept_ok {r : Except Error α} {b : α} {state state' : σ} :
    ofExcept r state = (.ok b, state') ↔ r = .ok b ∧ state = state' := by
  change (r, state) = _ ↔ _
  simp

theorem call_ok {answer : StateM σ (Except EngineError α)} {b : α} {state state' : σ} :
    call answer state = (.ok b, state') ↔ answer state = (.ok b, state') := by
  change ((answer state).1.mapError Error.queryExecution, (answer state).2) = _ ↔ _
  rcases answer state with ⟨outcome, mid⟩
  rw [Prod.mk.injEq, Prod.mk.injEq, Outcome.mapError_ok]

theorem ofFormat_ok {r : Except FormatError α} {b : α} {state state' : σ} :
    ofFormat r state = (.ok b, state') ↔ r = .ok b ∧ state = state' := by
  rw [ofFormat, ofExcept_ok, Outcome.mapError_ok]

end Step

end GuardedSearch
