import GuardedSearch.Calls
import GuardedSearch.Proofs.Outcomes

/-!
# Recording

A `Triple` speaks of the log that a recorded step leaves: what the step adds to it, what holds of
the log all along, and what holds of it and of the value that the step ends with.
-/

namespace GuardedSearch

variable {σ : Type} {α β : Type}

namespace Step

theorem bind_run {x : Step σ α} {f : α → Step σ β} {state : σ} :
    (x >>= f) state = match x state with
      | (.ok a, mid) => f a mid
      | (.error e, mid) => (.error e, mid) := by
  change ExceptT.bindCont f (x state).1 (x state).2 = _
  rcases x state with ⟨outcome, mid⟩
  cases outcome <;> rfl

end Step

-- ---------------------------------------------------------------------------
-- Logs
-- ---------------------------------------------------------------------------

/-- Begun with this log, `x` only adds to it and keeps the invariant, whatever its outcome; a
value that it ends with satisfies `Q` with the log that it leaves. -/
def Triple (inv : List Event → Prop) (x : Step (List Event × σ) α) (log : List Event)
    (Q : α → List Event → Prop) : Prop :=
  inv log → ∀ state, ∃ events, (x (log, state)).2.1 = log ++ events ∧ inv (log ++ events) ∧
    ∀ a, (x (log, state)).1 = .ok a → Q a (log ++ events)

namespace Triple

variable {inv : List Event → Prop} {log : List Event} {Q : α → List Event → Prop}
  {R : β → List Event → Prop} {x : Step (List Event × σ) α}

theorem pure {a : α} (h : Q a log) : Triple inv (pure a : Step (List Event × σ) α) log Q := by
  intro hinv state
  refine ⟨[], (List.append_nil _).symm, by rwa [List.append_nil], ?_⟩
  rintro b hb
  cases hb
  rwa [List.append_nil]

theorem ofExcept {r : Except Error α} (h : ∀ a, r = .ok a → Q a log) :
    Triple inv (Step.ofExcept r : Step (List Event × σ) α) log Q := by
  intro hinv state
  refine ⟨[], (List.append_nil _).symm, by rwa [List.append_nil], ?_⟩
  intro a ha
  rw [List.append_nil]
  exact h a ha

theorem bind {f : α → Step (List Event × σ) β} (h : Triple inv x log Q)
    (hrest : ∀ a more, Q a (log ++ more) → Triple inv (f a) (log ++ more) R) :
    Triple inv (x >>= f) log R := by
  intro hlog state
  obtain ⟨events, hadded, hinv, hQ⟩ := h hlog state
  rw [Step.bind_run]
  rcases hx : x (log, state) with ⟨outcome, mid, state'⟩
  rw [hx] at hadded hQ
  subst hadded
  cases outcome with
  | error e => exact ⟨events, rfl, hinv, fun b hb => by cases hb⟩
  | ok a =>
    obtain ⟨more, hmore, hinv', hR⟩ := hrest a events (hQ a rfl) hinv state'
    rw [List.append_assoc] at hmore hinv' hR
    exact ⟨events ++ more, hmore, hinv', hR⟩

theorem ofExcept_bind {r : Except Error α} {f : α → Step (List Event × σ) β}
    (hrest : ∀ a, r = .ok a → Triple inv (f a) log R) :
    Triple inv (Step.ofExcept r >>= f) log R := by
  cases r with
  | error e =>
    intro hinv state
    refine ⟨[], (List.append_nil _).symm, by rwa [List.append_nil], ?_⟩
    intro b hb
    cases hb
  | ok a => exact hrest a rfl

/-- What follows a step that adds one event begins with that event in the log. -/
theorem event_bind {f : α → Step (List Event × σ) β} (event : σ → Event)
    (hx : ∀ state, (x (log, state)).2.1 = log ++ [event state])
    (hinv : ∀ state, inv log → inv (log ++ [event state]))
    (hrest : ∀ a state, (x (log, state)).1 = .ok a → Triple inv (f a) (log ++ [event state]) R) :
    Triple inv (x >>= f) log R := by
  refine bind (Q := fun a log' => ∃ state, (x (log, state)).1 = .ok a ∧ log' = log ++ [event state])
    ?_ ?_
  · intro hlog state
    exact ⟨[event state], hx state, hinv state hlog, fun a ha => ⟨state, ha, rfl⟩⟩
  · rintro a more ⟨state, ha, hmore⟩
    rw [hmore]
    exact hrest a state ha

theorem call_bind {event : Except EngineError α → Event}
    {answer : StateM σ (Except EngineError α)} {f : α → Step (List Event × σ) β}
    (hinv : ∀ outcome, inv log → inv (log ++ [event outcome]))
    (hrest : ∀ a, Triple inv (f a) (log ++ [event (.ok a)]) R) :
    Triple inv (Step.call (recorded event answer) >>= f) log R := by
  refine event_bind (fun state => event (answer state).1) (fun _ => rfl) (fun _ => hinv _) ?_
  intro a state ha
  have hanswer : (answer state).1 = .ok a := Outcome.mapError_ok.mp ha
  rw [hanswer]
  exact hrest a

theorem asked_bind {event : Except Error α → Event} {answer : StateM σ (Except Error α)}
    {f : α → Step (List Event × σ) β} (hinv : ∀ outcome, inv log → inv (log ++ [event outcome]))
    (hrest : ∀ a state, (answer state).1 = .ok a → Triple inv (f a) (log ++ [event (.ok a)]) R) :
    Triple inv (ExceptT.mk (recorded event answer) >>= f) log R := by
  refine event_bind (fun state => event (answer state).1) (fun _ => rfl) (fun _ => hinv _) ?_
  intro a state ha
  have hanswer : (answer state).1 = .ok a := ha
  rw [hanswer]
  exact hrest a state hanswer

theorem dite {c : Prop} [Decidable c] {y : c → Step (List Event × σ) α}
    {z : ¬ c → Step (List Event × σ) α} (hy : ∀ hc, Triple inv (y hc) log Q)
    (hz : ∀ hc, Triple inv (z hc) log Q) :
    Triple inv (if hc : c then y hc else z hc) log Q := by
  split
  · exact hy _
  · exact hz _

/-- The snapshot is released after the last of what is done with it. -/
theorem withSnapshot {engine : Engine σ} {body : SnapshotHandle → Step (List Event × σ) α}
    (hacquire : ∀ outcome, inv log → inv (log ++ [.acquire outcome]))
    (hrelease : ∀ snapshot log', inv log' → inv (log' ++ [.release snapshot]))
    (h : ∀ snapshot, Triple inv (body snapshot) (log ++ [.acquire (.ok snapshot)])
      fun a log' => Q a (log' ++ [.release snapshot])) :
    Triple inv (Step.withSnapshot engine.recorded body) log Q := by
  apply call_bind hacquire
  intro snapshot hinv state
  obtain ⟨events, hadded, hinv', hvalue⟩ := h snapshot hinv state
  refine ⟨events ++ [.release snapshot], ?_, ?_, ?_⟩
  · rw [← List.append_assoc, ← hadded]
    rfl
  · rw [← List.append_assoc]
    exact hrelease snapshot _ hinv'
  · intro a ha
    rw [← List.append_assoc]
    exact hvalue a ha

end Triple

end GuardedSearch
