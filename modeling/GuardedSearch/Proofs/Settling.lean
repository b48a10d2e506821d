import GuardedSearch.Proofs.Accounts

/-!
# A throttle at rest

When every call has returned, the permits of the limit should be free and none be owed. The
accounts alone do not give this, as a permit may be free while one is owed: what is owed is paid
by searches that end, but not by callers that go away with a permit unused. `settled_iff_balanced`
says which throttles come to rest as they should, and which turns bring one out of balance.
-/

namespace GuardedSearch

namespace Gate

/-- Every permit is accounted for, and none is free while one is owed. -/
structure Balanced (g : Gate) : Prop where
  accounted : g.Accounted
  paid : g.Paid

/-- The two ways out of balance: a permit that comes back unused becomes free although one is
owed, or permits that the gate cannot count are lost. -/
def Unbalances (g g' : Gate) : Prop := g.MissesDebt g' ∨ g.Overflows g'

theorem close_balanced {g : Gate} (h : g.Balanced) : g.close.Balanced := by
  refine ⟨close_accounted h.accounted, ?_⟩
  rw [Paid, close_free]
  exact h.paid

theorem Move.balanced_iff {g g' : Gate} (m : Move g g') (h : g.Counted) (hb : g.Balanced) :
    g'.Balanced ↔ ¬ g.Unbalances g' := by
  have haccounted := m.accounted_iff hb.accounted
  have hpaid := m.paid_iff h hb.paid
  constructor
  · rintro ⟨ha, hp⟩ (hmisses | hoverflows)
    · exact hpaid.mp hp hmisses
    · exact haccounted.mp ha hoverflows
  · intro hbalances
    exact ⟨haccounted.mpr fun h => hbalances (.inr h), hpaid.mpr fun h => hbalances (.inl h)⟩

end Gate

namespace Throttle

open Relation (ReflTransGen)

variable {α : Type}

/-- Every call has returned or was given up: no search runs, and nobody waits. -/
def AtRest (t : Throttle α) : Prop := t.calls = []

/-- The permits of the limit are free, and none is owed. -/
def Settled (t : Throttle α) : Prop := t.gate.free = t.gate.limit ∧ t.gate.debt = 0

/-- A turn that does not bring the gate out of balance. -/
def BalancedTurn (t t' : Throttle α) : Prop := Turn t t' ∧ ¬ t.gate.Unbalances t'.gate

theorem Turn.balanced_iff {t t' : Throttle α} (u : Turn t t') (ho : t.Orderly)
    (h : t.gate.Balanced) : t'.gate.Balanced ↔ ¬ t.gate.Unbalances t'.gate := by
  cases u with
  | step s => exact (s.move ho).balanced_iff ho.counted h
  | close =>
    refine iff_of_true (Gate.close_balanced h) ?_
    rintro (hmisses | hoverflows)
    · exact Gate.not_missesDebt (fun c hc => List.mem_append_left _ hc) hmisses
    · exact Gate.close_not_overflows _ hoverflows

theorem ofSemaphore_balanced {semaphore : Semaphore} {limit : Nat} {t : Throttle α}
    (h : ofSemaphore semaphore limit = .ok t) : t.gate.Balanced := by
  refine ⟨ofSemaphore_accounted h, ?_⟩
  obtain ⟨-, rfl⟩ := ofSemaphore_ok h
  exact .inl rfl

theorem run_balanced {new t : Throttle α} (h : new.Orderly) (hb : new.gate.Balanced)
    (hrun : ReflTransGen BalancedTurn new t) : t.Orderly ∧ t.gate.Balanced := by
  induction hrun with
  | refl => exact ⟨h, hb⟩
  | tail _ u ih => exact ⟨u.1.orderly ih.1, (u.1.balanced_iff ih.1 ih.2).mpr u.2⟩

/-- Where permits come back unused only while none is owed, and the limits can be counted, no
turn brings the gate out of balance. -/
theorem run_balanced_of_paid {semaphore : Semaphore} {limit : Nat} {new t : Throttle α}
    (hnew : ofSemaphore semaphore limit = .ok new) (hrun : ReflTransGen
      (fun t t' => PaidStep t t' ∧ t'.gate.limit ≤ Gate.maxPermits) new t) :
    ReflTransGen BalancedTurn new t := by
  induction hrun with
  | refl => exact .refl
  | tail hrun s ih =>
    have hcountable := ReflTransGen.mono
      (fun _ _ h => (⟨.step h.1.1, h.2⟩ : CountableTurn _ _)) _ _ hrun
    obtain ⟨ho, hc⟩ :=
      run_countable (ofSemaphore_orderly hnew) (ofSemaphore_countable hnew) hcountable
    refine ih.tail ⟨.step s.1.1, ?_⟩
    rintro (⟨hback, hdebt, -⟩ | hoverflows)
    · have := s.1.2 hback
      omega
    · exact ho.counted.not_overflows hc s.2 hoverflows

/-- Nobody holds a permit of a throttle at rest. -/
theorem AtRest.held_eq_zero {t : Throttle α} (h : t.AtRest) (ho : t.Orderly)
    (ha : t.Attended) : t.gate.held = 0 := by
  rw [← ho.length_holding ha, holding, h]
  rfl

theorem AtRest.settled_iff {t : Throttle α} (h : t.AtRest) (ho : t.Orderly) (ha : t.Attended) :
    t.Settled ↔ t.gate.Balanced := by
  have hheld := h.held_eq_zero ho ha
  constructor
  · rintro ⟨hfree, hdebt⟩
    refine ⟨?_, .inl hdebt⟩
    rw [Gate.Accounted, hfree, hheld, hdebt]
  · rintro ⟨haccounted, hpaid⟩
    rw [Gate.Accounted, hheld] at haccounted
    simp only [Gate.Paid, Settled] at hpaid ⊢
    omega

/-- When a throttle comes to rest with the permits of its limit free and none owed. A throttle
at rest has settled just when it is in balance, and a turn brings it out of balance just when a
permit that comes back unused becomes free although one is owed, or more are to be free than the
gate can count. Without such a turn a throttle settles whenever it is at rest. As long as the
limit can be counted, what is owed at rest is free beyond the limit. -/
theorem settled_iff_balanced {limit : Nat} {new t : Throttle α} (hnew : ofLimit limit = .ok new)
    (hrun : ReflTransGen Turn new t) :
    (t.AtRest → (t.Settled ↔ t.gate.Balanced)) ∧
      (t.gate.Balanced → ∀ t', Turn t t' →
        (t'.gate.Balanced ↔ ¬ t.gate.Unbalances t'.gate)) ∧
      (ReflTransGen BalancedTurn new t → t.AtRest → t.Settled) ∧
      (ReflTransGen CountableTurn new t → t.AtRest →
        t.gate.free = t.gate.limit + t.gate.debt) := by
  have hnew' := ofSemaphore_orderly hnew
  obtain ⟨horderly, hattended⟩ := run_attended hnew' (ofSemaphore_attended hnew) hrun
  refine ⟨fun hrest => hrest.settled_iff horderly hattended, fun hbalanced t' u =>
    u.balanced_iff horderly hbalanced, fun hkept hrest => ?_, fun hcounted hrest => ?_⟩
  · rw [hrest.settled_iff horderly hattended]
    exact (run_balanced hnew' (ofSemaphore_balanced hnew) hkept).2
  · have haccounted :=
      run_accounted hnew' (ofSemaphore_countable hnew) (ofSemaphore_accounted hnew) hcounted
    rwa [Gate.Accounted, hrest.held_eq_zero horderly hattended] at haccounted

/-- The limit falls to one while a search runs and a permit is handed over unused. The search
pays what is owed, the others end in turn, and one permit is free in the end. -/
theorem settled_iff_balanced_paid : ∃ (new : Throttle Unit) (t : Throttle Unit),
    t = (((((handedOver.resize 1).2.finish 1 ()).poll 2).finish 2 ()).poll 3).finish 3 () ∧
      ofLimit 2 = .ok new ∧ ReflTransGen BalancedTurn new t ∧ t.AtRest ∧ t.Settled := by
  obtain ⟨new, hnew, hrun⟩ := handedOver_run
  have hover : ReflTransGen BalancedTurn new handedOver :=
    run_balanced_of_paid hnew (ReflTransGen.mono (fun _ _ h => ⟨h.1, h.2 ▸ by decide⟩) _ _ hrun)
  have hend : ReflTransGen BalancedTurn new
      ((((((handedOver.resize 1).2.finish 1 ()).poll 2).finish 2 ()).poll 3).finish 3 ()) := by
    refine .tail (.tail (.tail (.tail (.tail (.tail hover
      ⟨.step (.resize _ 1 (by decide)), ?_⟩) ⟨.step (.finish _ 1 () (by decide)), ?_⟩)
      ⟨.step (.poll _ 2), ?_⟩) ⟨.step (.finish _ 2 () (by decide)), ?_⟩)
      ⟨.step (.poll _ 3), ?_⟩) ⟨.step (.finish _ 3 () (by decide)), ?_⟩
    all_goals
      unfold Gate.Unbalances Gate.MissesDebt Gate.GivesBack Gate.Overflows
      decide
  have hturns : ReflTransGen Turn new
      ((((((handedOver.resize 1).2.finish 1 ()).poll 2).finish 2 ()).poll 3).finish 3 ()) :=
    ReflTransGen.mono (fun _ _ u => u.1) _ _ hend
  exact ⟨new, _, rfl, hnew, hend, rfl, (settled_iff_balanced hnew hturns).2.2.1 hend rfl⟩

/-- The limit falls to one while two permits are handed over unused, and both callers are
cancelled: two permits are free under a limit of one, and one is owed. -/
theorem exists_atRest_not_settled : ∃ new t : Throttle Unit, ofLimit 2 = .ok new ∧
    ReflTransGen Step new t ∧ t.AtRest ∧ ¬ t.Settled ∧
      t.gate.free = 2 ∧ t.gate.limit = 1 ∧ t.gate.debt = 1 := by
  obtain ⟨new, hnew, hrun⟩ := handedOver_reachable
  have hcancelled : ReflTransGen Step new
      ((((((handedOver.finish 1 ()).resize 1).2.cancel 2).cancel 3).poll 2).poll 3) :=
    .tail (.tail (.tail (.tail (.tail (.tail (run_of_paid hrun) (.finish _ 1 () (by decide)))
      (.resize _ 1 (by decide))) (.cancel _ 2)) (.cancel _ 3)) (.poll _ 2)) (.poll _ 3)
  exact ⟨new, _, hnew, hcancelled, rfl, fun h => absurd h.2 (by decide), rfl, rfl, rfl⟩

end Throttle

end GuardedSearch
