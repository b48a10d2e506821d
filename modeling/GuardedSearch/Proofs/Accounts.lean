import GuardedSearch.Proofs.Admission

/-!
# Permits are accounted for

However calls come, go and end, and however the limit is set, the permits that are free and those
that calls hold are together the permits of the limit and those still owed. `Move.accounted_iff`
names the only events that lose permits, those after which more are to be free than the gate can
count, and `permits_accounted` says of every run whose limits can be counted that no permit is lost
or made.
-/

namespace GuardedSearch

namespace Gate

/-- The permits that are free or held are those of the limit and those still owed. -/
def Accounted (g : Gate) : Prop := g.free + g.held = g.limit + g.debt

/-- The permits that come in and that nobody queues for: what debt and queue leave of a growth,
and those that callers give up and do not pay with. -/
def spare (g g' : Gate) : Nat :=
  (g'.limit - g.limit - g.debt - g.queue.length) + (g.held - g'.held - (g.debt - g'.debt))

/-- More permits come in at once than a gate ever counts, or more are to be free than its word
has room for. -/
def Overflows (g g' : Gate) : Prop :=
  maxPermits < g.spare g' ∨ PermitWord.size ≤ g.free + g.spare g'

instance (g g' : Gate) : Decidable (g.Overflows g') := inferInstanceAs (Decidable (_ ∨ _))

/-- The permits that are lost when some come in: all of them if a gate does not add them, and all
that the word has room for if it carries over its end. -/
def overflow (free spare : Nat) : Nat :=
  if maxPermits < spare then spare
  else if PermitWord.size ≤ free + spare then PermitWord.size
  else 0

/-- The permits that an event loses. -/
def lost (g g' : Gate) : Nat := overflow g.free (g.spare g')

theorem lost_eq_zero_iff {g g' : Gate} : g.lost g' = 0 ↔ ¬ g.Overflows g' := by
  have hsize : PermitWord.size ≠ 0 := by decide
  rw [lost, overflow, Overflows]
  by_cases hmost : maxPermits < g.spare g'
  · rw [if_pos hmost]
    omega
  rw [if_neg hmost]
  split <;> omega

theorem not_overflows_of_spare {g g' : Gate} (h : g.spare g' = 0) : ¬ g.Overflows g' := by
  have := g.free_lt
  rw [Overflows, h]
  omega

/-- Every permit that there can be, by limit and debt, is one that a gate counts. -/
def Countable (g : Gate) : Prop := g.limit + g.debt ≤ maxPermits

theorem Counted.not_overflows {g g' : Gate} (h : g.Counted) (hg : g.Countable)
    (hlimit : g'.limit ≤ maxPermits) : ¬ g.Overflows g' := by
  have := h.bounded
  simp only [Overflows, spare, Countable, PermitWord.size, maxPermits] at *
  omega

/-- What becomes of permits that come in: held, free or lost. -/
theorem put_total (g : Gate) (n : Nat) :
    (g.put n).free + (g.put n).held + overflow g.free (n - g.queue.length) =
      g.free + g.held + n := by
  have hlt := g.free_lt
  rw [put_free, put_held, overflow]
  by_cases hmost : maxPermits < n - g.queue.length
  · rw [if_pos hmost, if_pos hmost]
    omega
  rw [if_neg hmost, if_neg hmost]
  by_cases hover : PermitWord.size ≤ g.free + (n - g.queue.length)
  all_goals
    simp only [hover, ↓reduceIte]
    simp only [PermitWord.size, maxPermits] at hlt hmost hover ⊢
    omega

/-- The permits of the limit and those owed change as the permits do, but for those that are
lost. -/
def Conserves (g g' : Gate) : Prop :=
  g'.free + g'.held + g.lost g' + (g.limit + g.debt) = g.free + g.held + (g'.limit + g'.debt)

/-- Where nothing comes in that is to be free, nothing is lost. -/
theorem conserves_of_spare {g g' : Gate} (h : g.spare g' = 0)
    (htotal : g'.free + g'.held + (g.limit + g.debt) = g.free + g.held + (g'.limit + g'.debt)) :
    g.Conserves g' := by
  rw [Conserves, lost_eq_zero_iff.mpr (not_overflows_of_spare h)]
  exact htotal

theorem conserves_refl (g : Gate) : g.Conserves g :=
  conserves_of_spare (by simp only [spare]; omega) rfl

/-- Permits come in at a gate that has changed in limit, debt and holders before. -/
theorem conserves_put {g g₁ : Gate} {n : Nat} (hfree : g₁.free = g.free)
    (hspare : g.spare (g₁.put n) = n - g₁.queue.length)
    (htotal : g₁.held + n + (g.limit + g.debt) = g.held + (g₁.limit + g₁.debt)) :
    g.Conserves (g₁.put n) := by
  have hput := put_total g₁ n
  rw [Conserves, lost, hspare, ← hfree]
  change _ + (g.limit + g.debt) = g₁.free + g.held + (g₁.limit + g₁.debt)
  omega

theorem leave_conserves (g : Gate) (c : Nat) : g.Conserves (g.leave c) := by
  by_cases hc : c ∈ g.granted
  · have hlen := List.length_erase_of_mem hc
    have hpos := List.length_pos_of_mem hc
    rw [leave_of_granted hc]
    refine conserves_put rfl ?_ ?_
    · rw [spare, put_held]
      simp only [held, put]
      omega
    · simp only [held]
      omega
  · rw [leave_of_not_granted hc]
    refine conserves_of_spare ?_ rfl
    simp only [spare, held]
    omega

theorem finish_conserves (g : Gate) (c : Nat) : g.Conserves (g.finish c) := by
  rcases finish_cases g c with ⟨-, heq⟩ | ⟨hc, hd, heq⟩ | ⟨hc, hd, heq⟩
  all_goals rw [heq]
  · exact conserves_refl g
  all_goals
    have hlen := List.length_erase_of_mem hc
    have hpos := List.length_pos_of_mem hc
  · refine conserves_of_spare ?_ ?_
    · simp only [spare, held]
      omega
    · simp only [held, free]
      omega
  · refine conserves_put rfl ?_ ?_
    · rw [spare, put_held]
      simp only [held, put]
      omega
    · simp only [held]
      omega

theorem resize_conserves (g : Gate) {n : Nat} (hn : 0 < n) : g.Conserves (g.resize n).2 := by
  rcases resize_cases g hn with ⟨-, heq⟩ | ⟨hlt, heq⟩ | ⟨hlt, heq⟩
  all_goals rw [heq]
  · exact conserves_refl g
  · refine conserves_put rfl ?_ ?_
    · rw [spare, put_held]
      simp only [held, put]
      omega
    · simp only [held]
      omega
  · have hfree := shrunk_free g n
    refine conserves_of_spare ?_ ?_
    · simp only [spare, held, shrunk]
      omega
    · rw [hfree]
      simp only [held, shrunk]
      omega

theorem look_conserves (g : Gate) (c : Nat) : g.Conserves (g.look c).2 := by
  rcases look_cases g c with ⟨-, heq⟩ | ⟨hg, heq⟩ | ⟨-, heq⟩ | ⟨-, -, hf, heq⟩ | ⟨-, -, -, heq⟩
  all_goals rw [heq]
  · exact leave_conserves g c
  · have hlen := List.length_erase_of_mem hg
    have hpos := List.length_pos_of_mem hg
    refine conserves_of_spare ?_ ?_
    · simp only [spare, held, List.length_append, List.length_singleton]
      omega
    · simp only [held, free, List.length_append, List.length_singleton]
      omega
  · exact conserves_refl g
  · have hfree := PermitWord.count_take hf
    refine conserves_of_spare ?_ ?_
    · simp only [spare, held, List.length_append, List.length_singleton]
      omega
    · simp only [held, free, List.length_append, List.length_singleton] at hf hfree ⊢
      omega
  · refine conserves_of_spare ?_ rfl
    simp only [spare, held]
    omega

theorem Move.conserves {g g' : Gate} (m : Move g g') : g.Conserves g' := by
  cases m with
  | stay => exact conserves_refl g
  | look c hc => exact look_conserves g c
  | leave c => exact leave_conserves g c
  | finish c => exact finish_conserves g c
  | resize n hn => exact resize_conserves g hn

/-- No event makes permits, and those that lose some are to make more free than can be counted. -/
theorem Move.accounted_iff {g g' : Gate} (m : Move g g') (h : g.Accounted) :
    g'.Accounted ↔ ¬ g.Overflows g' := by
  have htotal := m.conserves
  rw [← lost_eq_zero_iff]
  simp only [Accounted, Conserves] at h htotal ⊢
  omega

-- ---------------------------------------------------------------------------
-- Limit and debt
-- ---------------------------------------------------------------------------

theorem leave_sizes (g : Gate) (c : Nat) :
    (g.leave c).limit = g.limit ∧ (g.leave c).debt = g.debt := by
  obtain ⟨_, _, _, heq⟩ := leave_changes g c
  rw [heq]
  exact ⟨rfl, rfl⟩

theorem look_sizes (g : Gate) (c : Nat) :
    (g.look c).2.limit = g.limit ∧ (g.look c).2.debt = g.debt := by
  rcases look_cases g c with ⟨-, heq⟩ | ⟨-, heq⟩ | ⟨-, heq⟩ | ⟨-, -, -, heq⟩ | ⟨-, -, -, heq⟩
  all_goals rw [heq]
  · exact leave_sizes g c
  all_goals exact ⟨rfl, rfl⟩

theorem finish_sizes (g : Gate) (c : Nat) :
    (g.finish c).limit = g.limit ∧ (g.finish c).debt ≤ g.debt := by
  rcases finish_cases g c with ⟨-, heq⟩ | ⟨-, -, heq⟩ | ⟨-, -, heq⟩
  all_goals rw [heq]
  · exact ⟨rfl, Nat.le_refl _⟩
  · exact ⟨rfl, Nat.sub_le ..⟩
  · exact ⟨rfl, Nat.le_refl _⟩

theorem resize_limit {g : Gate} {n : Nat} (hn : 0 < n) : (g.resize n).2.limit = n := by
  rcases resize_cases g hn with ⟨rfl, heq⟩ | ⟨-, heq⟩ | ⟨-, heq⟩
  all_goals rw [heq]
  all_goals rfl

/-- What is owed comes out of the limit. -/
theorem resize_debt_le {g : Gate} {n : Nat} (hn : 0 < n) :
    n + (g.resize n).2.debt ≤ max (g.limit + g.debt) n := by
  rcases resize_cases g hn with ⟨rfl, heq⟩ | ⟨hlt, heq⟩ | ⟨hlt, heq⟩
  all_goals rw [heq]
  · exact Nat.le_max_left ..
  · change n + (g.debt - (n - g.limit)) ≤ _
    omega
  -- a shrink moves to the debt what is not free, and no more than it takes from the limit
  · change n + (g.debt + (g.limit - n) - g.free) ≤ _
    omega

/-- The limit and what is owed are together never more than they were or than the new limit. -/
theorem Move.sizes {g g' : Gate} (m : Move g g') :
    g'.limit + g'.debt ≤ max (g.limit + g.debt) g'.limit := by
  cases m with
  | stay => exact Nat.le_max_left ..
  | look c hc =>
    have := look_sizes g c
    omega
  | leave c =>
    have := leave_sizes g c
    omega
  | finish c =>
    have := finish_sizes g c
    omega
  | resize n hn =>
    rw [resize_limit hn]
    exact resize_debt_le hn

-- ---------------------------------------------------------------------------
-- Closing
-- ---------------------------------------------------------------------------

theorem close_free (g : Gate) : g.close.free = g.free := PermitWord.count_close _

theorem close_accounted {g : Gate} (h : g.Accounted) : g.close.Accounted := by
  rw [Accounted, close_free]
  exact h

theorem close_spare (g : Gate) : g.spare g.close = 0 := by
  simp only [spare, held, close]
  omega

theorem close_not_overflows (g : Gate) : ¬ g.Overflows g.close :=
  not_overflows_of_spare (close_spare g)

theorem close_conserves (g : Gate) : g.Conserves g.close := by
  refine conserves_of_spare (close_spare g) ?_
  rw [close_free]
  rfl

-- ---------------------------------------------------------------------------
-- Who is at the gate
-- ---------------------------------------------------------------------------

/-- The callers at the gate whose searches do not run. -/
def waiters (g : Gate) : List Nat := g.queue ++ g.granted

theorem mem_waiters_put {g : Gate} {n c : Nat} : c ∈ (g.put n).waiters ↔ c ∈ g.waiters := by
  have hqueue : c ∈ g.queue ↔ c ∈ g.queue.take n ∨ c ∈ g.queue.drop n := by
    rw [← List.mem_append, List.take_append_drop]
  simp only [waiters, put, List.mem_append, hqueue]
  grind

theorem Counted.nodup_waiters {g : Gate} (h : g.Counted) : g.waiters.Nodup :=
  h.once.sublist (List.sublist_append_left ..)

theorem mem_waiters_leave {g : Gate} (h : g.Counted) {c d : Nat} :
    c ∈ (g.leave d).waiters ↔ c ∈ g.waiters ∧ c ≠ d := by
  have honce := h.nodup_waiters
  by_cases hd : d ∈ g.granted
  · rw [leave_of_granted hd, mem_waiters_put]
    simp only [waiters] at honce ⊢
    grind
  · rw [leave_of_not_granted hd]
    simp only [waiters] at honce ⊢
    grind

/-- Who looks is at the gate after it just if it has to wait. -/
theorem mem_waiters_look {g : Gate} (h : g.Counted) {c d : Nat} (hc : c ∈ (g.look d).2.waiters) :
    c ∈ g.waiters ∧ c ≠ d ∨ (g.look d).1 = .wait ∧ (c ∈ g.waiters ∨ c = d) := by
  have honce := h.nodup_waiters
  unfold look at hc ⊢
  by_cases haway : g.turnsAway d = true
  · rw [if_pos haway] at hc
    exact .inl ((mem_waiters_leave h).mp hc)
  · simp only [haway, Bool.false_eq_true, ↓reduceIte] at hc ⊢
    simp only [waiters] at honce hc ⊢
    grind

theorem mem_waiters_finish {g : Gate} {c d : Nat} : c ∈ (g.finish d).waiters ↔ c ∈ g.waiters := by
  rcases finish_cases g d with ⟨-, heq⟩ | ⟨-, -, heq⟩ | ⟨-, -, heq⟩
  all_goals rw [heq]
  · exact .rfl
  · exact mem_waiters_put

theorem mem_waiters_resize {g : Gate} {n : Nat} (hn : 0 < n) {c : Nat} :
    c ∈ (g.resize n).2.waiters ↔ c ∈ g.waiters := by
  rcases resize_cases g hn with ⟨-, heq⟩ | ⟨-, heq⟩ | ⟨-, heq⟩
  all_goals rw [heq]
  · exact mem_waiters_put
  · exact .rfl

end Gate

namespace Throttle

open Relation (ReflTransGen)

variable {α : Type}

/-- What happens to a throttle, open or closed. -/
inductive Turn : Throttle α → Throttle α → Prop
  | step {t t' : Throttle α} (h : Step t t') : Turn t t'
  | close (t : Throttle α) : Turn t t.close

/-- What happens to a throttle whose limit stays one that a gate can count. -/
def CountableTurn (t t' : Throttle α) : Prop := Turn t t' ∧ t'.gate.limit ≤ Gate.maxPermits

/-- Who is at the gate without searching is a call that waits for it. -/
def Attended (t : Throttle α) : Prop := ∀ c ∈ t.gate.waiters, c ∈ t.waiting

/-- The calls that hold a permit, whether or not their searches have begun. -/
def holding (t : Throttle α) : List Call := t.calls.filter fun c => c.number ∈ t.gate.holders

-- ---------------------------------------------------------------------------
-- Calls at the gate
-- ---------------------------------------------------------------------------

theorem mem_waiting_remove {t : Throttle α} {c number : Nat} (hc : c ∈ t.waiting)
    (hne : c ≠ number) : c ∈ (t.remove number).waiting := by
  obtain ⟨call, hmem, hwait, rfl⟩ := mem_waiting.mp hc
  exact mem_waiting.mpr ⟨call, List.mem_filter.mpr ⟨hmem, by simpa using hne⟩, hwait, rfl⟩

theorem Orderly.not_running {t : Throttle α} (h : t.Orderly) {c : Nat} (hc : c ∈ t.waiting) :
    c ∉ t.running := by
  intro hrun
  obtain ⟨a, ha, hwait, hna⟩ := mem_waiting.mp hc
  obtain ⟨b, hb, hrunning, hnb⟩ := mem_running.mp hrun
  have heq := eq_of_number_eq h.distinct ha hb (hna.trans hnb.symm)
  simp [heq, hrunning] at hwait

theorem Attended.leave {t t' : Throttle α} (h : t.Attended) (ho : t.Orderly) {number : Nat}
    (hcalls : t'.calls = (t.remove number).calls) (hgate : t'.gate = t.gate.leave number) :
    t'.Attended := by
  intro c hc
  rw [hgate, Gate.mem_waiters_leave ho.counted] at hc
  have := mem_waiting_remove (h c hc.1) hc.2
  rwa [waiting, hcalls]

theorem Attended.poll {t : Throttle α} (h : t.Attended) (ho : t.Orderly) (number : Nat) :
    (t.poll number).Attended := by
  rcases poll_cases t number with heq | ⟨hw, ⟨hcalls, hgate⟩ | ⟨hlook, hcalls, hgate⟩ |
    ⟨hlook, hcalls, hgate⟩ | ⟨hlook, hcalls, hgate⟩⟩
  · rwa [heq]
  · exact h.leave ho hcalls hgate
  all_goals
    intro c hc
    rw [hgate] at hc
    have hc := Gate.mem_waiters_look ho.counted hc
    rw [hlook] at hc
    rw [waiting, hcalls]
    simp only [reduceCtorEq, false_and, or_false, true_and] at hc
  · exact mem_waiting_remove (h c hc.1) hc.2
  · rcases hc with ⟨hc, -⟩ | hc | rfl
    · exact h c hc
    · exact h c hc
    · exact hw
  · obtain ⟨call, hmem, hwait, rfl⟩ := mem_waiting.mp (h c hc.1)
    refine List.mem_map.mpr ⟨call, List.mem_filter.mpr ⟨List.mem_map.mpr ⟨call, hmem, ?_⟩, ?_⟩, rfl⟩
    · rw [if_neg hc.2]
    · simpa using hwait

theorem Turn.orderly {t t' : Throttle α} (u : Turn t t') (h : t.Orderly) : t'.Orderly := by
  cases u with
  | step s => exact s.orderly h
  | close =>
    refine ⟨h.distinct, h.seated, ⟨?_, fun hq => absurd rfl hq, ?_⟩⟩
    · change t.gate.close.free + t.gate.held ≤ t.gate.limit + t.gate.debt
      rw [Gate.close_free]
      exact h.counted.bounded
    exact h.counted.once.sublist ((List.sublist_append_right ..).append_right _)

theorem Turn.attended {t t' : Throttle α} (u : Turn t t') (ho : t.Orderly) (h : t.Attended) :
    t'.Attended := by
  cases u with
  | close => exact fun c hc => h c (List.mem_append_right _ hc)
  | step s =>
    cases s with
    | start number cancelled hnew =>
      intro c hc
      obtain ⟨call, hmem, hwait⟩ := mem_waiting.mp (h c hc)
      exact mem_waiting.mpr ⟨call, List.mem_append_left _ hmem, hwait⟩
    | cancel number =>
      intro c hc
      obtain ⟨call, hmem, hwait, rfl⟩ := mem_waiting.mp (h c hc)
      refine mem_waiting.mpr ⟨_, List.mem_map_of_mem hmem, ?_⟩
      split <;> exact ⟨hwait, rfl⟩
    | poll number => exact h.poll ho number
    | drop number hw => exact h.leave ho rfl rfl
    | finish number result hrun =>
      intro c hc
      have hwait := h c (Gate.mem_waiters_finish.mp hc)
      exact mem_waiting_remove hwait fun heq => ho.not_running hwait (heq ▸ hrun)
    | resize limit hpos => exact fun c hc => h c ((Gate.mem_waiters_resize hpos).mp hc)

/-- Every permit that is held is held by one call. -/
theorem Orderly.length_holding {t : Throttle α} (h : t.Orderly) (ha : t.Attended) :
    t.holding.length = t.gate.held := by
  have hcalls : (t.holding.map (·.number)).Perm t.gate.holders := by
    refine (List.perm_ext_iff_of_nodup ?_ ?_).mpr fun c => ?_
    · exact h.distinct.sublist (List.filter_sublist.map _)
    · refine h.counted.once.sublist ?_
      exact (List.sublist_append_right ..).append_right _
    · simp only [holding, List.mem_map, List.mem_filter, decide_eq_true_eq]
      constructor
      · rintro ⟨call, ⟨-, hheld⟩, rfl⟩
        exact hheld
      · intro hheld
        obtain ⟨call, hmem, rfl⟩ : ∃ call ∈ t.calls, call.number = c := by
          rcases List.mem_append.mp hheld with hc | hc
          · obtain ⟨call, hmem, -, rfl⟩ := mem_waiting.mp (ha c (List.mem_append_right _ hc))
            exact ⟨call, hmem, rfl⟩
          · obtain ⟨call, hmem, -, rfl⟩ := mem_running.mp (h.seated c hc)
            exact ⟨call, hmem, rfl⟩
        exact ⟨call, ⟨hmem, hheld⟩, rfl⟩
  rw [Gate.held_eq_length, ← hcalls.length_eq, List.length_map]

-- ---------------------------------------------------------------------------
-- Runs
-- ---------------------------------------------------------------------------

section Opened

variable {semaphore : Semaphore} {limit : Nat} {t : Throttle α}

theorem ofSemaphore_attended (h : ofSemaphore semaphore limit = .ok t) : t.Attended := by
  obtain ⟨-, rfl⟩ := ofSemaphore_ok h
  exact List.forall_mem_nil _

theorem ofSemaphore_accounted (h : ofSemaphore semaphore limit = .ok t) : t.gate.Accounted := by
  obtain ⟨hle, rfl⟩ := ofSemaphore_ok h
  exact Gate.opened_free hle

theorem ofSemaphore_countable (h : ofSemaphore semaphore limit = .ok t) : t.gate.Countable := by
  obtain ⟨hle, rfl⟩ := ofSemaphore_ok h
  exact hle

end Opened

theorem run_attended {new t : Throttle α} (h : new.Orderly) (ha : new.Attended)
    (hrun : ReflTransGen Turn new t) : t.Orderly ∧ t.Attended := by
  induction hrun with
  | refl => exact ⟨h, ha⟩
  | tail _ u ih => exact ⟨u.orderly ih.1, u.attended ih.1 ih.2⟩

theorem Turn.accounted_iff {t t' : Throttle α} (u : Turn t t') (ho : t.Orderly)
    (h : t.gate.Accounted) : t'.gate.Accounted ↔ ¬ t.gate.Overflows t'.gate := by
  cases u with
  | step s => exact (s.move ho).accounted_iff h
  | close => exact iff_of_true (Gate.close_accounted h) (Gate.close_not_overflows _)

theorem CountableTurn.countable {t t' : Throttle α} (u : CountableTurn t t') (ho : t.Orderly)
    (h : t.gate.Countable) : t'.gate.Countable := by
  obtain ⟨hturn, hlimit⟩ := u
  cases hturn with
  | step s =>
    exact Nat.le_trans (s.move ho).sizes (Nat.max_le.mpr ⟨h, hlimit⟩)
  | close => exact h

theorem run_countable {new t : Throttle α} (h : new.Orderly) (hc : new.gate.Countable)
    (hrun : ReflTransGen CountableTurn new t) : t.Orderly ∧ t.gate.Countable := by
  induction hrun with
  | refl => exact ⟨h, hc⟩
  | tail _ u ih => exact ⟨u.1.orderly ih.1, u.countable ih.1 ih.2⟩

theorem run_accounted {new t : Throttle α} (h : new.Orderly) (hc : new.gate.Countable)
    (ha : new.gate.Accounted) (hrun : ReflTransGen CountableTurn new t) : t.gate.Accounted := by
  induction hrun with
  | refl => exact ha
  | tail hrun u ih =>
    obtain ⟨ho, hc'⟩ := run_countable h hc hrun
    exact (u.1.accounted_iff ho ih).mpr (ho.counted.not_overflows hc' u.2)

/-- No permit is lost or made, whatever calls come, are cancelled or given up, and however their
searches end. As long as the limit stays one that a gate can count, the permits that are free
and those that calls hold are together the permits of the limit and those still owed, so that
they are never fewer than the limit. -/
theorem permits_accounted {limit : Nat} {new t : Throttle α} (hnew : ofLimit limit = .ok new)
    (hrun : ReflTransGen CountableTurn new t) :
    t.gate.free + t.holding.length = t.gate.limit + t.gate.debt ∧
      t.gate.limit ≤ t.gate.free + t.holding.length := by
  have hnew' := ofSemaphore_orderly hnew
  obtain ⟨horderly, hattended⟩ := run_attended hnew' (ofSemaphore_attended hnew)
    (ReflTransGen.mono (fun _ _ u => u.1) _ _ hrun)
  have haccounted :=
    run_accounted hnew' (ofSemaphore_countable hnew) (ofSemaphore_accounted hnew) hrun
  rw [Gate.Accounted, ← horderly.length_holding hattended] at haccounted
  omega

/-- The limit falls to one while a permit is handed over unused, and the permit goes to the next
in the queue when its holder gives up: two calls hold permits, and one permit is owed. -/
theorem permits_accounted_owed : ∃ (new : Throttle Unit) (t : Throttle Unit),
    t = (handedOver.resize 1).2.drop 2 ∧ ofLimit 2 = .ok new ∧
      ReflTransGen CountableTurn new t ∧ t.gate.debt = 1 ∧
      t.gate.free + t.holding.length = t.gate.limit + t.gate.debt ∧
      t.holding.map (·.number) = [1, 3] := by
  obtain ⟨new, hnew, hrun⟩ := handedOver_run
  have hcountable : ReflTransGen CountableTurn new handedOver :=
    ReflTransGen.mono (fun _ _ h => ⟨.step h.1.1, h.2 ▸ by decide⟩) _ _ hrun
  have howed : ReflTransGen CountableTurn new ((handedOver.resize 1).2.drop 2) :=
    (hcountable.tail ⟨.step (.resize _ 1 (by decide)), by decide⟩).tail
      ⟨.step (.drop _ 2 (by decide)), by decide⟩
  exact ⟨new, _, rfl, hnew, howed, rfl, (permits_accounted hnew howed).1, by decide⟩

end Throttle

end GuardedSearch
