import GuardedSearch.Config
import GuardedSearch.Proofs.Accounts
import GuardedSearch.Proofs.Views
import GuardedSearch.Word

/-!
# Resizes that are done in part

A resize is to be refused with an error, and then nothing has changed, or to be done in full.
`allOrNothing_iff` says when it is either: a gate that has to count more permits than it can
neither takes the size nor refuses it, and the new limit stands all the same. `run_ledger` keeps
account of the permits that are lost that way.
-/

namespace GuardedSearch

namespace Gate

variable {g : Gate} {n : Nat}

/-- The permits that a resize has to count: what the debt and the queue leave of a growth. -/
def surplus (g : Gate) (n : Nat) : Nat := n - g.limit - g.debt - g.queue.length

/-- More permits are to be free after the resize than a gate counts. -/
def Overfills (g : Gate) (n : Nat) : Prop := 0 < g.surplus n ∧ maxPermits < g.free + g.surplus n

instance (g : Gate) (n : Nat) : Decidable (g.Overfills n) := inferInstanceAs (Decidable (_ ∧ _))

theorem Overfills.limit_lt (h : g.Overfills n) : g.limit < n := by
  have := h.1
  simp only [surplus] at this
  omega

theorem resize_answer (g : Gate) (n : Nat) :
    (g.resize n).1 =
      if n = 0 then .error .notPositive
      else if g.Overfills n then .error .tooManyPermits
      else .ok () := by
  unfold resize
  by_cases hzero : n = 0
  · rw [if_pos hzero, if_pos hzero]
  rw [if_neg hzero, if_neg hzero]
  by_cases hgrow : g.limit < n
  · have hcan : canPut { g with limit := n, debt := g.debt - min g.debt (n - g.limit) }
        (n - g.limit - min g.debt (n - g.limit)) = true ↔ ¬ g.Overfills n := by
      rw [canPut, Bool.or_eq_true, decide_eq_true_eq, decide_eq_true_eq]
      simp only [free, Overfills, surplus]
      omega
    rw [if_neg (by omega), if_pos hgrow]
    simp only [hcan]
    exact ite_not ..
  · rw [if_neg fun hover : g.Overfills n => hgrow hover.limit_lt, if_neg hgrow]
    split <;> rfl

theorem resize_spare (hn : 0 < n) : g.spare (g.resize n).2 = g.surplus n := by
  have hheld : g.held ≤ (g.resize n).2.held := by
    rcases resize_cases g hn with ⟨-, heq⟩ | ⟨-, heq⟩ | ⟨-, heq⟩
    · exact Nat.le_of_eq (congrArg held heq).symm
    · rw [heq, grown, put_held]
      exact Nat.le_add_right ..
    · exact Nat.le_of_eq (congrArg held heq).symm
  rw [spare, resize_limit hn, surplus]
  omega

theorem lost_resize_eq_zero (hn : 0 < n) (h : ¬ g.Overfills n) : g.lost (g.resize n).2 = 0 := by
  have hlt := g.free_lt
  rw [lost_eq_zero_iff, Overflows, resize_spare hn]
  simp only [Overfills, maxPermits, PermitWord.size] at h hlt ⊢
  omega

end Gate

namespace Throttle

open Relation (ReflTransGen)

variable {α : Type}

/-- A throttle is made for a size, or the size is refused with an error. -/
def Opens (α : Type) (n : Nat) : Prop :=
  (∃ refusal e, (ofLimit n : Except Gate.Refusal (Throttle α)) = .error refusal ∧
    Refusal.error? refusal = some e) ∨
  ∃ t : Throttle α, ofLimit n = .ok t ∧ t.gate.limit = n ∧
    t.gate.free + t.holding.length = n + t.gate.debt

/-- A resize is refused with an error and changes nothing, or is done and accounted for. -/
def AllOrNothing (t : Throttle α) (n : Nat) : Prop :=
  (∃ refusal e, t.resize n = (.error refusal, t) ∧ Refusal.error? refusal = some e) ∨
  ((t.resize n).1 = .ok () ∧ (t.resize n).2.gate.limit = n ∧
    (t.resize n).2.gate.free + (t.resize n).2.holding.length = n + (t.resize n).2.gate.debt)

def lost (t : Throttle α) : List (Event α) → Nat
  | [] => 0
  | e :: rest => t.gate.lost (t.after e).gate + (t.after e).lost rest

theorem resize_answer (t : Throttle α) (n : Nat) : (t.resize n).1 = (t.gate.resize n).1 := rfl

theorem resize_gate (t : Throttle α) (n : Nat) : (t.resize n).2.gate = (t.gate.resize n).2 := rfl

-- ---------------------------------------------------------------------------
-- Runs
-- ---------------------------------------------------------------------------

theorem Takes.conserves {t : Throttle α} {e : Event α} (h : t.Takes e) (ho : t.Orderly) :
    t.gate.Conserves (t.after e).gate := by
  rcases h.turn with heq | u
  · rw [heq]
    exact Gate.conserves_refl _
  · generalize t.after e = t' at u
    cases u with
    | step s => exact (s.move ho).conserves
    | close => exact Gate.close_conserves _

/-- Permits are conserved in a run, but for those that are lost. -/
theorem run_conserves {t : Throttle α} (ho : t.Orderly) {events : List (Event α)}
    (h : t.TakesAll events) :
    (t.run events).gate.free + (t.run events).gate.held + t.lost events +
        (t.gate.limit + t.gate.debt) =
      t.gate.free + t.gate.held + ((t.run events).gate.limit + (t.run events).gate.debt) := by
  induction events generalizing t with
  | nil => rfl
  | cons e rest ih =>
    have hstep := h.1.conserves ho
    have hrest := ih (h.1.orderly ho) h.2
    rw [Gate.Conserves] at hstep
    simp only [run, List.foldl_cons, lost] at hrest ⊢
    omega

theorem TakesAll.reaches {t : Throttle α} {events : List (Event α)} (h : t.TakesAll events) :
    ReflTransGen Turn t (t.run events) := by
  induction events generalizing t with
  | nil => exact .refl
  | cons e rest ih =>
    refine ReflTransGen.trans (b := t.after e) ?_ (ih h.2)
    rcases h.1.turn with heq | u
    · rw [heq]
    · exact .single u

/-- The permits of a throttle, with those that its run has lost, are those of its limit and its
debt. -/
theorem run_ledger {semaphore : Semaphore} {limit : Nat} {new : Throttle α}
    (hnew : ofSemaphore semaphore limit = .ok new) {events : List (Event α)}
    (h : new.TakesAll events) :
    (new.run events).gate.free + (new.run events).gate.held + new.lost events =
      (new.run events).gate.limit + (new.run events).gate.debt := by
  have hconserves := run_conserves (ofSemaphore_orderly hnew) h
  have haccounted : new.gate.free + new.gate.held = _ := ofSemaphore_accounted hnew
  omega

/-- Only a resize sets a limit. -/
theorem after_limit_le {b : Nat} {t : Throttle α} {e : Event α} (h : t.gate.limit ≤ b)
    (hresize : ∀ n, e = .resize n → n ≤ b) : (t.after e).gate.limit ≤ b := by
  cases e with
  | start number cancelled => exact h
  | cancel number => exact h
  | poll number =>
    change (t.poll number).gate.limit ≤ b
    rcases poll_cases t number with heq | ⟨-, ⟨-, heq⟩ | ⟨-, -, heq⟩ | ⟨-, -, heq⟩ | ⟨-, -, heq⟩⟩
    all_goals rw [heq]
    · exact h
    · exact Nat.le_trans (Nat.le_of_eq (Gate.leave_sizes ..).1) h
    all_goals exact Nat.le_trans (Nat.le_of_eq (Gate.look_sizes ..).1) h
  | drop number => exact Nat.le_trans (Nat.le_of_eq (Gate.leave_sizes ..).1) h
  | finish number result => exact Nat.le_trans (Nat.le_of_eq (Gate.finish_sizes ..).1) h
  | resize n =>
    rcases Nat.eq_zero_or_pos n with rfl | hpos
    · exact h
    · exact Nat.le_trans (Nat.le_of_eq (Gate.resize_limit hpos)) (hresize n rfl)
  | close => exact h

/-- A run whose limits a gate can count. -/
theorem TakesAll.reaches_countable {t : Throttle α} {events : List (Event α)}
    (h : t.TakesAll events) (hlimit : t.gate.limit ≤ Gate.maxPermits)
    (hlimits : ∀ n, .resize n ∈ events → n ≤ Gate.maxPermits) :
    ReflTransGen CountableTurn t (t.run events) := by
  induction events generalizing t with
  | nil => exact .refl
  | cons e rest ih =>
    have hafter : (t.after e).gate.limit ≤ Gate.maxPermits :=
      after_limit_le hlimit fun n hn => hlimits n (hn ▸ List.mem_cons_self ..)
    refine ReflTransGen.trans (b := t.after e) ?_
      (ih h.2 hafter fun n hn => hlimits n (List.mem_cons_of_mem _ hn))
    rcases h.1.turn with heq | u
    · rw [heq]
    · exact .single ⟨u, hafter⟩

-- ---------------------------------------------------------------------------
-- Sizes
-- ---------------------------------------------------------------------------

theorem opens_iff {n : Nat} : Opens α n ↔ n ≤ Gate.maxPermits := by
  have hopen : (ofLimit n : Except Gate.Refusal (Throttle α)) =
      if n = 0 then .error .notPositive
      else if Gate.maxPermits < n then .error .tooManyPermits
      else .ok (opened .keepsClosed n) := by
    unfold ofLimit ofSemaphore Gate.ofSemaphore
    split
    · rfl
    · split <;> rfl
  rw [Opens, hopen]
  by_cases hzero : n = 0
  · rw [if_pos hzero]
    exact iff_of_true (.inl ⟨_, _, rfl, rfl⟩) (hzero ▸ Nat.zero_le _)
  rw [if_neg hzero]
  by_cases hmost : Gate.maxPermits < n
  · rw [if_pos hmost]
    refine iff_of_false ?_ (Nat.not_le.mpr hmost)
    rintro (⟨_, _, heq, herror⟩ | ⟨_, heq, -⟩)
    · cases heq
      cases herror
    · cases heq
  · rw [if_neg hmost]
    have hle := Nat.not_lt.mp hmost
    exact iff_of_true (.inr ⟨_, rfl, rfl, Gate.opened_free hle⟩) hle

/-- A resize of a throttle whose permits are short of its limit by `k`. -/
theorem allOrNothing_iff_of_short {t : Throttle α} (ho : t.Orderly) (ha : t.Attended) {k : Nat}
    (hledger : t.gate.free + t.gate.held + k = t.gate.limit + t.gate.debt) (n : Nat) :
    t.AllOrNothing n ↔ n = 0 ∨ k = 0 ∧ ¬ t.gate.Overfills n := by
  have hanswer := Gate.resize_answer t.gate n
  rw [AllOrNothing]
  by_cases hzero : n = 0
  · exact iff_of_true (.inl ⟨_, _, by rw [hzero]; rfl, rfl⟩) (.inl hzero)
  have hpos := Nat.pos_of_ne_zero hzero
  rw [if_neg hzero, ← resize_answer] at hanswer
  by_cases hover : t.gate.Overfills n
  · rw [if_pos hover] at hanswer
    refine iff_of_false ?_ (by rintro (hn | ⟨-, hfits⟩) <;> contradiction)
    rintro (⟨_, _, heq, herror⟩ | ⟨hok, -⟩)
    · rw [heq] at hanswer
      cases hanswer
      cases herror
    · rw [hok] at hanswer
      cases hanswer
  · rw [if_neg hover] at hanswer
    have hturn : Turn t (t.resize n).2 := .step (.resize t n hpos)
    have hlimit : (t.resize n).2.gate.limit = n := Gate.resize_limit hpos
    have hconserves := Gate.resize_conserves t.gate hpos
    rw [Gate.Conserves, Gate.lost_resize_eq_zero hpos hover, ← resize_gate, hlimit,
      ← (hturn.orderly ho).length_holding (hturn.attended ho ha)] at hconserves
    constructor
    · rintro (⟨_, _, heq, -⟩ | ⟨-, -, htotal⟩)
      · rw [heq] at hanswer
        cases hanswer
      · exact .inr ⟨by omega, hover⟩
    · rintro (hn | ⟨hk, -⟩)
      · exact absurd hn hzero
      · exact .inr ⟨hanswer, hlimit, by omega⟩

/-- A gate that counts its permits is overfilled by what its callers do not take. -/
theorem overfills_iff {t : Throttle α} (hledger : t.gate.free + t.gate.held =
    t.gate.limit + t.gate.debt) (hfree : t.gate.free ≤ Gate.maxPermits) (n : Nat) :
    t.gate.Overfills n ↔ Gate.maxPermits + t.gate.held + t.gate.queue.length < n := by
  simp only [Gate.Overfills, Gate.surplus]
  omega

/-- A throttle opens with any size up to the most permits that a gate counts. After any run, a
resize is all or nothing just when it is refused for a size of zero, or no permit has been lost and
the gate can count what is to be free after it. A gate that cannot does not refuse the size with an
error, and yet has the new limit. Permits are lost when too many come in at once, or when the word
that counts them carries over its end. In a run whose limits a gate counts there are none to be
lost: the sizes that it can take then are those up to the most permits that it counts, and as many
more as callers hold or wait for. -/
theorem allOrNothing_iff {limit : Nat} {new : Throttle α} (hnew : ofLimit limit = .ok new)
    {events : List (Event α)} (hevents : new.TakesAll events) (n : Nat) :
    let t := new.run events
    (Opens α n ↔ n ≤ Gate.maxPermits) ∧
    (t.AllOrNothing n ↔ n = 0 ∨ new.lost events = 0 ∧ ¬ t.gate.Overfills n) ∧
    (t.gate.Overfills n → (t.resize n).1 = .error .tooManyPermits ∧
      (t.resize n).2.gate.limit = n ∧ t.gate.limit < n) ∧
    t.gate.free + t.holding.length + new.lost events = t.gate.limit + t.gate.debt ∧
    ((∀ m, .resize m ∈ events → m ≤ Gate.maxPermits) →
      (t.AllOrNothing n ↔
        n ≤ Gate.maxPermits + t.holding.length + t.gate.queue.length)) := by
  have hnew' := ofSemaphore_orderly hnew
  have hledger := run_ledger hnew hevents
  obtain ⟨horderly, hattended⟩ := run_attended hnew' (ofSemaphore_attended hnew) hevents.reaches
  have hiff := allOrNothing_iff_of_short horderly hattended hledger n
  have hholding := horderly.length_holding hattended
  refine ⟨opens_iff, hiff, fun hover => ?_, by rw [hholding]; exact hledger, fun hlimits => ?_⟩
  · have hpos : 0 < n := Nat.zero_lt_of_lt hover.limit_lt
    refine ⟨?_, Gate.resize_limit hpos, hover.limit_lt⟩
    rw [resize_answer, Gate.resize_answer, if_neg (Nat.ne_of_gt hpos), if_pos hover]
  · have hcounted := hevents.reaches_countable ((ofSemaphore_ok hnew).2 ▸ (ofSemaphore_ok hnew).1)
      hlimits
    have hc : (new.run events).gate.Countable :=
      (run_countable hnew' (ofSemaphore_countable hnew) hcounted).2
    have haccounted : (new.run events).gate.free + (new.run events).gate.held = _ :=
      run_accounted hnew' (ofSemaphore_countable hnew) (ofSemaphore_accounted hnew) hcounted
    -- nothing is lost, so the ledger leaves no more free than a gate counts
    have hlost : new.lost events = 0 := by omega
    rw [Gate.Countable] at hc
    have hover := overfills_iff haccounted (by omega) n
    rw [hiff, hholding, hover]
    omega

/-- Two searches run under a limit of one, and a third waits. -/
def crowded : List (Event Unit) :=
  [.start 1 false, .start 2 false, .start 3 false, .poll 1, .poll 2, .poll 3, .resize 1]

/-- The crowded gate can take three permits more than it counts, and no more. -/
theorem allOrNothing_iff_crowded : ∃ new : Throttle Unit, ofLimit 2 = .ok new ∧
    new.TakesAll crowded ∧ (new.run crowded).gate.debt = 1 ∧
      (new.run crowded).holding.map (·.number) = [1, 2] ∧ (new.run crowded).gate.queue = [3] ∧
      (new.run crowded).AllOrNothing 0 ∧ (new.run crowded).AllOrNothing (Gate.maxPermits + 3) ∧
      ¬ (new.run crowded).AllOrNothing (Gate.maxPermits + 4) := by
  obtain ⟨new, hnew⟩ : ∃ new : Throttle Unit, ofLimit 2 = .ok new := ⟨_, rfl⟩
  obtain rfl := (ofSemaphore_ok hnew).2
  have hevents : (opened .keepsClosed 2 : Throttle Unit).TakesAll crowded := by decide
  have hlimits : ∀ m, .resize m ∈ crowded → m ≤ Gate.maxPermits := by
    intro m hm
    simp only [crowded, List.mem_cons, reduceCtorEq, Event.resize.injEq, false_or, List.not_mem_nil,
      or_false] at hm
    exact hm ▸ by decide
  have hall (n : Nat) := (allOrNothing_iff hnew hevents n).2.2.2.2 hlimits
  exact ⟨_, hnew, hevents, rfl, rfl, rfl, (hall _).mpr (by decide), (hall _).mpr (by decide),
    mt (hall _).mp (by decide)⟩

/-- A valid configuration that no throttle opens with, and a resize that neither is refused with an
error nor is done: the limit is the new one, and the permits are those of the old. -/
theorem exists_neither_all_nor_nothing :
    (∃ c : SearchConfig, c.IsValid ∧ c.maxConcurrentQueries ≤ Word.maxCount ∧
      ¬ Opens Unit c.maxConcurrentQueries) ∧
    ∃ (new : Throttle Unit) (n : Nat), ofLimit 1 = .ok new ∧ n ≤ Word.maxCount ∧
      ¬ new.AllOrNothing n ∧ (new.resize n).2.gate = { new.gate with limit := n } ∧
      n ≠ new.gate.limit := by
  obtain ⟨new, hnew⟩ : ∃ new : Throttle Unit, ofLimit 1 = .ok new := ⟨_, rfl⟩
  have hiff :=
    allOrNothing_iff_of_short (k := 0) (ofSemaphore_orderly hnew) (ofSemaphore_attended hnew)
  obtain rfl := (ofSemaphore_ok hnew).2
  refine ⟨⟨{ SearchConfig.default with maxConcurrentQueries := Gate.maxPermits + 1 }, by decide,
    by decide, mt opens_iff.mp (by decide)⟩, _, Gate.maxPermits + 2, hnew, by decide, ?_, by decide,
    by decide⟩
  exact mt (hiff rfl _).mp (by decide)

end Throttle

end GuardedSearch
