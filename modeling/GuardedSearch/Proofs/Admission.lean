import Mathlib.Logic.Relation
import GuardedSearch.Proofs.Permits
import GuardedSearch.Throttle

/-!
# Admission within the limit

Runs of a throttle: calls start, look, are cancelled or given up, searches end and the limit is
changed, in any order. `overAdmits_iff_oversteps` says at which steps of a run a caller gets a
permit although as many callers as the limit allows hold one, and that a run in which permits
come back unused only while none is owed has no such step.
-/

namespace GuardedSearch

namespace Throttle

open Relation (ReflTransGen)

variable {α : Type}

/-- What happens to an open throttle. A number names one call at a time, only a waiting call is
given up, and only a running search ends, whatever it gives. -/
inductive Step : Throttle α → Throttle α → Prop
  | start (t : Throttle α) (number : Nat) (cancelled : Bool)
      (h : number ∉ t.calls.map (·.number)) : Step t (t.start number cancelled)
  | cancel (t : Throttle α) (number : Nat) : Step t (t.cancel number)
  | poll (t : Throttle α) (number : Nat) : Step t (t.poll number)
  | drop (t : Throttle α) (number : Nat) (h : number ∈ t.waiting) : Step t (t.drop number)
  | finish (t : Throttle α) (number : Nat) (result : α) (h : number ∈ t.running) :
      Step t (t.finish number result)
  | resize (t : Throttle α) (limit : Nat) (h : 0 < limit) : Step t (t.resize limit).2

/-- A step in which no permit comes back unused while one is owed. -/
def PaidStep (t t' : Throttle α) : Prop :=
  Step t t' ∧ (t.gate.GivesBack t'.gate → t.gate.debt = 0)

/-- What every run keeps: calls have numbers of their own, and only callers whose searches run
are let in. -/
structure Orderly (t : Throttle α) : Prop where
  distinct : (t.calls.map (·.number)).Nodup
  seated : ∀ c ∈ t.gate.running, c ∈ t.running
  counted : t.gate.Counted

theorem mem_running {t : Throttle α} {c : Nat} :
    c ∈ t.running ↔ ∃ call ∈ t.calls, call.running = true ∧ call.number = c := by
  simp [running, and_assoc]

theorem mem_waiting {t : Throttle α} {c : Nat} :
    c ∈ t.waiting ↔ ∃ call ∈ t.calls, call.running = false ∧ call.number = c := by
  simp [waiting, and_assoc]

theorem eq_of_number_eq {calls : List Call} (h : (calls.map (·.number)).Nodup) {a b : Call}
    (ha : a ∈ calls) (hb : b ∈ calls) (heq : a.number = b.number) : a = b := by
  induction calls with
  | nil => simp at ha
  | cons d rest ih =>
    simp only [List.map_cons, List.nodup_cons, List.mem_map] at h
    rcases List.mem_cons.mp ha with rfl | ha' <;> rcases List.mem_cons.mp hb with rfl | hb'
    · rfl
    · exact absurd ⟨b, hb', heq.symm⟩ h.1
    · exact absurd ⟨a, ha', heq⟩ h.1
    · exact ih h.2 ha' hb'

theorem Orderly.not_seated {t : Throttle α} (h : t.Orderly) {c : Nat} (hc : c ∈ t.waiting) :
    c ∉ t.gate.running := by
  intro hrun
  obtain ⟨a, ha, hwait, hna⟩ := mem_waiting.mp hc
  obtain ⟨b, hb, hrunning, hnb⟩ := mem_running.mp (h.seated c hrun)
  have heq := eq_of_number_eq h.distinct ha hb (hna.trans hnb.symm)
  simp [heq, hrunning] at hwait

theorem mem_running_remove {t : Throttle α} {c number : Nat} (hc : c ∈ t.running)
    (hne : c ≠ number) : c ∈ (t.remove number).running := by
  obtain ⟨call, hmem, hrun, rfl⟩ := mem_running.mp hc
  exact mem_running.mpr ⟨call, List.mem_filter.mpr ⟨hmem, by simpa using hne⟩, hrun, rfl⟩

theorem distinct_remove {t : Throttle α} (h : (t.calls.map (·.number)).Nodup) (number : Nat) :
    ((t.remove number).calls.map (·.number)).Nodup :=
  h.sublist (List.filter_sublist.map _)

theorem Orderly.leave {t t' : Throttle α} (h : t.Orderly) {number : Nat} (hw : number ∈ t.waiting)
    (hcalls : t'.calls = (t.remove number).calls) (hgate : t'.gate = t.gate.leave number) :
    t'.Orderly := by
  refine ⟨hcalls ▸ distinct_remove h.distinct number, fun c hc => ?_, ?_⟩
  · rw [hgate, Gate.leave_running] at hc
    have hne : c ≠ number := fun heq => h.not_seated hw (heq ▸ hc)
    have := mem_running_remove (h.seated c hc) hne
    rwa [running, hcalls]
  · rw [hgate]
    exact Gate.leave_counted h.counted number

theorem call?_eq_some {t : Throttle α} {number : Nat} {call : Call}
    (h : t.call? number = some call) : call ∈ t.calls ∧ call.number = number := by
  have hmem := List.mem_of_find?_eq_some h
  have hnum := List.find?_some h
  exact ⟨hmem, by simpa using hnum⟩

/-- What a poll does: nothing, or its call goes away, waits on or begins its search. -/
theorem poll_cases (t : Throttle α) (number : Nat) :
    t.poll number = t ∨ number ∈ t.waiting ∧
      (((t.poll number).calls = (t.remove number).calls ∧
          (t.poll number).gate = t.gate.leave number) ∨
        ((t.gate.look number).1 = .refused ∧ (t.poll number).calls = (t.remove number).calls ∧
          (t.poll number).gate = (t.gate.look number).2) ∨
        ((t.gate.look number).1 = .wait ∧ (t.poll number).calls = t.calls ∧
          (t.poll number).gate = (t.gate.look number).2) ∨
        ((t.gate.look number).1 = .enter ∧ (t.poll number).calls = t.calls.map (fun c =>
            if c.number = number then { c with running := true } else c) ∧
          (t.poll number).gate = (t.gate.look number).2)) := by
  unfold poll
  cases hcall : t.call? number with
  | none => exact .inl rfl
  | some call =>
    obtain ⟨hmem, hnum⟩ := call?_eq_some hcall
    simp only
    by_cases hrun : call.running = true
    · exact .inl (by rw [if_pos hrun])
    · have hwait : number ∈ t.waiting := mem_waiting.mpr ⟨call, hmem, by simpa using hrun, hnum⟩
      rw [if_neg hrun]
      by_cases hcancel : call.cancelled = true
      · rw [if_pos hcancel]
        exact .inr ⟨hwait, .inl ⟨rfl, rfl⟩⟩
      · rw [if_neg hcancel]
        rcases hlook : t.gate.look number with ⟨found, gate⟩
        cases found with
        | enter => exact .inr ⟨hwait, .inr (.inr (.inr ⟨rfl, rfl, rfl⟩))⟩
        | wait => exact .inr ⟨hwait, .inr (.inr (.inl ⟨rfl, rfl, rfl⟩))⟩
        | refused => exact .inr ⟨hwait, .inr (.inl ⟨rfl, rfl, rfl⟩)⟩

/-- A step of a throttle is a move of its gate. -/
theorem Step.move {t t' : Throttle α} (s : Step t t') (h : t.Orderly) :
    Gate.Move t.gate t'.gate := by
  cases s with
  | start number cancelled => exact .stay _
  | cancel number => exact .stay _
  | poll number =>
    rcases poll_cases t number with heq | ⟨hw, ⟨-, heq⟩ | ⟨-, -, heq⟩ | ⟨-, -, heq⟩ | ⟨-, -, heq⟩⟩
    all_goals rw [heq]
    · exact .stay _
    · exact .leave _ _
    · exact .look _ _ (h.not_seated hw)
    · exact .look _ _ (h.not_seated hw)
    · exact .look _ _ (h.not_seated hw)
  | drop number => exact .leave _ _
  | finish number result => exact .finish _ _
  | resize limit hpos => exact .resize _ _ hpos

theorem Orderly.poll {t : Throttle α} (h : t.Orderly) (number : Nat) : (t.poll number).Orderly := by
  have hmove := (Step.poll t number).move h
  rcases poll_cases t number with heq | ⟨hw, ⟨hcalls, hgate⟩ | ⟨hlook, hcalls, hgate⟩ |
    ⟨hlook, hcalls, hgate⟩ | ⟨hlook, hcalls, hgate⟩⟩
  · rwa [heq]
  · exact h.leave hw hcalls hgate
  · refine ⟨hcalls ▸ distinct_remove h.distinct number, fun c hc => ?_, hmove.counted h.counted⟩
    rw [hgate, Gate.look_running, if_neg (by simp [hlook])] at hc
    have hne : c ≠ number := fun heq => h.not_seated hw (heq ▸ hc)
    have := mem_running_remove (h.seated c hc) hne
    rwa [running, hcalls]
  · refine ⟨hcalls ▸ h.distinct, fun c hc => ?_, hmove.counted h.counted⟩
    rw [hgate, Gate.look_running, if_neg (by simp [hlook])] at hc
    rw [running, hcalls]
    exact h.seated c hc
  · have hnumbers : (t.poll number).calls.map (·.number) = t.calls.map (·.number) := by
      rw [hcalls, List.map_map]
      refine List.map_congr_left fun c _ => ?_
      simp only [Function.comp_apply]
      split <;> rfl
    refine ⟨hnumbers ▸ h.distinct, fun c hc => ?_, hmove.counted h.counted⟩
    rw [hgate, Gate.look_running, if_pos hlook, List.mem_append, List.mem_singleton] at hc
    rw [mem_running, hcalls]
    have enters (call : Call) (hmem : call ∈ t.calls)
        (hrun : call.running = true ∨ call.number = number) :
        ∃ d ∈ t.calls.map (fun c => if c.number = number then { c with running := true } else c),
          d.running = true ∧ d.number = call.number := by
      refine ⟨_, List.mem_map_of_mem hmem, ?_⟩
      split
      · exact ⟨rfl, rfl⟩
      · exact ⟨hrun.resolve_right ‹_›, rfl⟩
    rcases hc with hc | rfl
    · obtain ⟨call, hmem, hrun, rfl⟩ := mem_running.mp (h.seated c hc)
      exact enters call hmem (.inl hrun)
    · obtain ⟨call, hmem, -, rfl⟩ := mem_waiting.mp hw
      exact enters call hmem (.inr rfl)

theorem Orderly.finish {t : Throttle α} (h : t.Orderly) (number : Nat) (result : α) :
    (t.finish number result).Orderly := by
  refine ⟨distinct_remove h.distinct number, fun c hc => ?_, Gate.finish_counted h.counted number⟩
  have honce : t.gate.running.Nodup := h.counted.once.sublist (List.sublist_append_right ..)
  have hrun : c ∈ t.gate.running.erase number := Gate.finish_running t.gate number ▸ hc
  obtain ⟨hne, hmem⟩ := (List.Nodup.mem_erase_iff honce).mp hrun
  exact mem_running_remove (h.seated c hmem) hne

theorem Step.orderly {t t' : Throttle α} (s : Step t t') (h : t.Orderly) : t'.Orderly := by
  have hmove := s.move h
  cases s with
  | start number cancelled hnew =>
    refine ⟨?_, fun c hc => ?_, h.counted⟩
    · simp only [Throttle.start, List.map_append, List.map_cons, List.map_nil]
      exact List.nodup_append.mpr ⟨h.distinct, by simp, by grind⟩
    · obtain ⟨call, hmem, hrun⟩ := mem_running.mp (h.seated c hc)
      exact mem_running.mpr ⟨call, List.mem_append_left _ hmem, hrun⟩
  | cancel number =>
    have hnumbers : (t.cancel number).calls.map (·.number) = t.calls.map (·.number) := by
      simp only [Throttle.cancel, List.map_map]
      refine List.map_congr_left fun c _ => ?_
      simp only [Function.comp_apply]
      split <;> rfl
    refine ⟨hnumbers ▸ h.distinct, fun c hc => ?_, h.counted⟩
    obtain ⟨call, hmem, hrun, rfl⟩ := mem_running.mp (h.seated c hc)
    refine mem_running.mpr ⟨_, List.mem_map_of_mem hmem, ?_⟩
    split <;> exact ⟨hrun, rfl⟩
  | poll number => exact h.poll number
  | drop number hw => exact h.leave hw rfl rfl
  | finish number result => exact h.finish number result
  | resize limit hpos =>
    refine ⟨h.distinct, fun c hc => h.seated c ?_, hmove.counted h.counted⟩
    exact Gate.resize_running t.gate hpos ▸ hc

-- ---------------------------------------------------------------------------
-- Runs
-- ---------------------------------------------------------------------------

theorem ofSemaphore_ok {semaphore : Semaphore} {limit : Nat} {t : Throttle α}
    (h : ofSemaphore semaphore limit = .ok t) :
    limit ≤ Gate.maxPermits ∧ t = opened semaphore limit := by
  unfold ofSemaphore Gate.ofSemaphore at h
  split at h
  · cases h
  · split at h
    · cases h
    · next hle =>
      cases h
      exact ⟨Nat.not_lt.mp hle, rfl⟩

theorem ofSemaphore_orderly {semaphore : Semaphore} {limit : Nat} {t : Throttle α}
    (h : ofSemaphore semaphore limit = .ok t) : t.Orderly := by
  obtain ⟨hle, rfl⟩ := ofSemaphore_ok h
  have hfree : (opened semaphore limit : Throttle α).gate.free = limit := Gate.opened_free hle
  refine ⟨List.nodup_nil, by simp [opened, Gate.opened], ⟨?_, by simp [opened, Gate.opened], ?_⟩⟩
  · rw [hfree]
    exact Nat.le_refl _
  · exact List.nodup_nil

theorem run_orderly {new t : Throttle α} (h : new.Orderly) (hrun : ReflTransGen Step new t) :
    t.Orderly := by
  induction hrun with
  | refl => exact h
  | tail _ s ih => exact s.orderly ih

theorem run_paid {new t : Throttle α} (h : new.Orderly) (hp : new.gate.Paid)
    (hrun : ReflTransGen PaidStep new t) : t.Orderly ∧ t.gate.Paid := by
  induction hrun with
  | refl => exact ⟨h, hp⟩
  | tail _ s ih =>
    obtain ⟨horderly, hpaid⟩ := ih
    exact ⟨s.1.orderly horderly, (s.1.move horderly).paid horderly.counted hpaid s.2⟩

theorem run_of_paid {new t : Throttle α} (hrun : ReflTransGen PaidStep new t) :
    ReflTransGen Step new t := by
  induction hrun with
  | refl => exact .refl
  | tail _ s ih => exact ih.tail s.1

/-- When a step lets a caller in although `limit` or more others hold a permit: just when a
permit that comes back unused is handed on while more are held than the limit allows, or a free
permit is taken while the limit is reached. Neither happens as long as permits come back unused
only while none is owed. -/
theorem overAdmits_iff_oversteps {limit : Nat} {new t t' : Throttle α}
    (hnew : ofLimit limit = .ok new) (hrun : ReflTransGen Step new t) (hstep : Step t t') :
    (t.gate.OverAdmits t'.gate ↔ t.gate.Oversteps t'.gate) ∧
      (ReflTransGen PaidStep new t → PaidStep t t' → ¬ t.gate.OverAdmits t'.gate) := by
  have hnew' := ofSemaphore_orderly hnew
  have horderly := run_orderly hnew' hrun
  have hiff := (hstep.move horderly).overAdmits_iff horderly.counted
  refine ⟨hiff, fun hpaid hlast => ?_⟩
  have hp : new.gate.Paid := .inl (by rw [(ofSemaphore_ok hnew).2]; rfl)
  rw [hiff]
  exact horderly.counted.not_oversteps (run_paid hnew' hp hpaid).2 hlast.2

/-- Two calls search, a third was handed the permit of the first when that ended, and a fourth
queues. -/
def handedOver : Throttle Unit :=
  (((((((((opened .keepsClosed 2 : Throttle Unit).start 0 false).poll 0).start 1 false).poll 1
    ).start 2 false).poll 2).start 3 false).poll 3).finish 0 ()

theorem handedOver_run : ∃ new : Throttle Unit, ofLimit 2 = .ok new ∧
    ReflTransGen (fun t t' => PaidStep t t' ∧ t'.gate.limit = 2) new handedOver := by
  refine ⟨_, rfl, ?_⟩
  refine .tail (.tail (.tail (.tail (.tail (.tail (.tail (.tail (.tail .refl
    ⟨⟨.start _ 0 false ?_, ?_⟩, rfl⟩) ⟨⟨.poll _ 0, ?_⟩, rfl⟩) ⟨⟨.start _ 1 false ?_, ?_⟩, rfl⟩)
    ⟨⟨.poll _ 1, ?_⟩, rfl⟩) ⟨⟨.start _ 2 false ?_, ?_⟩, rfl⟩) ⟨⟨.poll _ 2, ?_⟩, rfl⟩)
    ⟨⟨.start _ 3 false ?_, ?_⟩, rfl⟩) ⟨⟨.poll _ 3, ?_⟩, rfl⟩) ⟨⟨.finish _ 0 () ?_, ?_⟩, rfl⟩
  all_goals first | decide | exact fun _ => rfl

theorem handedOver_reachable :
    ∃ new : Throttle Unit, ofLimit 2 = .ok new ∧ ReflTransGen PaidStep new handedOver := by
  obtain ⟨new, hnew, hrun⟩ := handedOver_run
  exact ⟨new, hnew, ReflTransGen.mono (fun _ _ h => h.1) _ _ hrun⟩

/-- The limit falls to one while a permit is handed over unused: the search that ends pays what
is owed, and the permit of the next goes to the last in the queue when nobody else holds one. -/
theorem paid_run_admits_within_limit :
    ∃ (new : Throttle Unit) (t : Throttle Unit),
      t = (((handedOver.resize 1).2.finish 1 ()).poll 2) ∧ ofLimit 2 = .ok new ∧
      ReflTransGen PaidStep new t ∧ PaidStep t (t.finish 2 ()) ∧
      t.gate.Grants (t.finish 2 ()).gate ∧ ¬ t.gate.OverAdmits (t.finish 2 ()).gate := by
  obtain ⟨new, hnew, hrun⟩ := handedOver_reachable
  have hfinish : ¬ (handedOver.resize 1).2.gate.GivesBack
      ((handedOver.resize 1).2.finish 1 ()).gate := by
    unfold Gate.GivesBack
    decide
  have hpaid : ReflTransGen PaidStep new (((handedOver.resize 1).2.finish 1 ()).poll 2) :=
    .tail (.tail (.tail hrun ⟨.resize _ 1 (by decide), fun _ => rfl⟩)
      ⟨.finish _ 1 () (by decide), fun h => absurd h hfinish⟩) ⟨.poll _ 2, fun _ => rfl⟩
  have hlast : PaidStep (((handedOver.resize 1).2.finish 1 ()).poll 2)
      ((((handedOver.resize 1).2.finish 1 ()).poll 2).finish 2 ()) :=
    ⟨.finish _ 2 () (by decide), fun _ => rfl⟩
  exact ⟨new, _, rfl, hnew, hpaid, hlast, ⟨3, by decide, by decide⟩,
    (overAdmits_iff_oversteps hnew (run_of_paid hpaid) hlast.1).2 hpaid hlast⟩

/-- The limit falls to one while a permit is handed over unused, and its holder gives up: the
permit goes to the next in the queue although a search runs already. -/
theorem exists_overAdmits :
    ∃ new t t' : Throttle Unit, ofLimit 2 = .ok new ∧ ReflTransGen Step new t ∧ Step t t' ∧
      t.gate.OverAdmits t'.gate := by
  obtain ⟨new, hnew, hrun⟩ := handedOver_reachable
  have hshrunk : ReflTransGen Step new (handedOver.resize 1).2 :=
    (run_of_paid hrun).tail (.resize _ 1 (by decide))
  exact ⟨new, _, _, hnew, hshrunk, .drop _ 2 (by decide), 3, by decide, by decide, by decide⟩

end Throttle

end GuardedSearch
