import GuardedSearch.Proofs.Accounts

/-!
# First come, first served

The order in which permits are granted. A `Ledger` kept beside a run gives every caller that
comes to the gate a ticket and records the tickets that were granted a permit.
`granted_in_order` says that these go up, that those of the queue follow from its head, and
that nobody queues for a permit that is free, wherever the limit went before.
-/

namespace GuardedSearch

namespace Gate

/-- The callers at the gate, in the queue or with a permit. -/
def present (g : Gate) : List Nat := g.queue ++ g.holders

/-- The callers that come to the gate in the step. -/
def arrived (g g' : Gate) : List Nat := g'.present.filter (· ∉ g.present)

/-- The callers that get a permit in the step, the first to get one at the head. -/
def admitted (g g' : Gate) : List Nat := g'.holders.filter (· ∉ g.holders)

/-- A step in which nobody comes, and permits go to the head of the queue, which others may
leave. -/
def ServesQueue (g g' : Gate) : Prop :=
  g.arrived g' = [] ∧ (g.admitted g' ++ g'.queue).Sublist g.queue

/-- A step in which one caller comes and joins the end of the queue, or gets a permit at once as
nobody queues. -/
def ServesNewcomer (g g' : Gate) (c : Nat) : Prop :=
  g.arrived g' = [c] ∧
    (g.admitted g' = [] ∧ g'.queue = g.queue ++ [c] ∨
      g.admitted g' = [c] ∧ g.queue = [] ∧ g'.queue = [])

theorem arrived_eq_nil {g g' : Gate} (h : ∀ c ∈ g'.present, c ∈ g.present) :
    g.arrived g' = [] := by
  simpa [arrived] using h

theorem admitted_eq_nil {g g' : Gate} (h : ∀ c ∈ g'.holders, c ∈ g.holders) :
    g.admitted g' = [] := by
  simpa [admitted] using h

theorem filter_eq_newcomer {old front back : List Nat} {c : Nat} (hfront : ∀ d ∈ front, d ∈ old)
    (hback : ∀ d ∈ back, d ∈ old) (hc : c ∉ old) :
    (front ++ c :: back).filter (· ∉ old) = [c] := by
  have hnone (ds : List Nat) (h : ∀ d ∈ ds, d ∈ old) : ds.filter (· ∉ old) = [] := by simpa using h
  rw [List.filter_append, hnone front hfront, List.filter_cons_of_pos (by simpa using hc),
    hnone back hback, List.nil_append]

theorem ServesNewcomer.not_queued {g g' : Gate} {c : Nat} (h : g.ServesNewcomer g' c) :
    c ∉ g.queue := by
  have hmem : c ∈ g.arrived g' := by simp [h.1]
  have hnew : c ∉ g.present := by simpa using (List.mem_filter.mp hmem).2
  exact fun hc => hnew (List.mem_append_left _ hc)

/-- Whoever queues has no permit. -/
theorem Counted.not_holder {g : Gate} (h : g.Counted) {c : Nat} (hc : c ∈ g.queue) :
    c ∉ g.holders := by
  have honce := h.once
  simp only [List.append_assoc, List.nodup_append] at honce
  exact fun hheld => honce.2.2 c hc c hheld rfl

-- ---------------------------------------------------------------------------
-- Single events
-- ---------------------------------------------------------------------------

/-- A step in which nobody comes and nobody gets a permit. -/
theorem serves_of_sublist {g g' : Gate} (hqueue : g'.queue.Sublist g.queue)
    (hkept : ∀ c ∈ g'.holders, c ∈ g.holders) : g.ServesQueue g' := by
  refine ⟨arrived_eq_nil fun c hc => ?_, ?_⟩
  · simp only [present, List.mem_append] at hc ⊢
    exact hc.imp hqueue.mem (hkept c)
  · rwa [admitted_eq_nil hkept, List.nil_append]

theorem serves_refl (g : Gate) : g.ServesQueue g :=
  serves_of_sublist (List.Sublist.refl _) fun _ => id

/-- Permits that come in go to the head of the queue, in its order. -/
theorem admitted_put {g g₁ : Gate} (hkept : ∀ c ∈ g₁.holders, c ∈ g.holders)
    (hqueue : ∀ c ∈ g₁.queue, c ∉ g.holders) (n : Nat) :
    g.admitted (g₁.put n) = g₁.queue.take n := by
  have hgranted : g₁.granted.filter (· ∉ g.holders) = [] := by
    simpa using fun c hc => hkept c (List.mem_append_left _ hc)
  have hrunning : g₁.running.filter (· ∉ g.holders) = [] := by
    simpa using fun c hc => hkept c (List.mem_append_right _ hc)
  have htaken : (g₁.queue.take n).filter (· ∉ g.holders) = g₁.queue.take n := by
    refine List.filter_eq_self.mpr fun c hc => ?_
    simpa using hqueue c (List.mem_of_mem_take hc)
  simp only [admitted, holders, put, List.filter_append] at hgranted hrunning htaken ⊢
  rw [hgranted, hrunning, htaken, List.nil_append, List.append_nil]

theorem serves_put {g g₁ : Gate} (h : g.Counted) (hkept : ∀ c ∈ g₁.holders, c ∈ g.holders)
    (hqueue : g₁.queue = g.queue) (n : Nat) : g.ServesQueue (g₁.put n) := by
  refine ⟨arrived_eq_nil fun c hc => ?_, ?_⟩
  · simp only [present, List.mem_append, put_holders] at hc ⊢
    rcases hc with hc | hc | hc
    · exact .inl (hqueue ▸ List.mem_of_mem_drop hc)
    · exact .inl (hqueue ▸ List.mem_of_mem_take hc)
    · exact .inr (hkept c hc)
  · rw [admitted_put hkept fun c hc => h.not_holder (hqueue ▸ hc)]
    change (g₁.queue.take n ++ g₁.queue.drop n).Sublist g.queue
    simp only [List.take_append_drop, hqueue, List.Sublist.refl]

theorem leave_serves {g : Gate} (h : g.Counted) (c : Nat) : g.ServesQueue (g.leave c) := by
  by_cases hc : c ∈ g.granted
  · rw [leave_of_granted hc]
    refine serves_put h (fun _ => mem_holders_of_erase_granted) ?_ 1
    rfl
  · rw [leave_of_not_granted hc]
    exact serves_of_sublist (List.erase_sublist ..) fun _ => id

theorem look_serves {g : Gate} (h : g.Counted) {c : Nat} (hr : c ∉ g.running) :
    g.ServesQueue (g.look c).2 ∨ g.ServesNewcomer (g.look c).2 c := by
  rcases look_cases g c with ⟨-, heq⟩ | ⟨hg, heq⟩ | ⟨-, heq⟩ | ⟨hg, hq, hf, heq⟩ | ⟨hg, hq, hf, heq⟩
  all_goals rw [heq]
  · exact .inl (leave_serves h c)
  · refine .inl (serves_of_sublist (List.Sublist.refl _) fun d hd => ?_)
    have hcount := List.perm_cons_erase hg
    simp only [holders] at hd ⊢
    grind
  · exact .inl (serves_refl g)
  · -- nobody queues, as a permit is free
    have hqueue : g.queue = [] := Decidable.byContradiction fun hne => by
      have := h.busy hne
      omega
    have hnew : (g.holders ++ [c]).filter (· ∉ g.holders) = [c] :=
      filter_eq_newcomer (fun _ => id) (List.forall_mem_nil _) (by simp [holders, hg, hr])
    refine .inr ⟨?_, .inr ⟨?_, hqueue, hqueue⟩⟩
    · have hpresent : g.present = g.holders := by rw [present, hqueue, List.nil_append]
      rw [arrived, hpresent]
      simpa only [present, holders, hqueue, List.nil_append, List.append_assoc] using hnew
    · simpa only [admitted, holders, List.append_assoc] using hnew
  · have hnew : (g.queue ++ c :: g.holders).filter (· ∉ g.present) = [c] :=
      filter_eq_newcomer (fun _ => List.mem_append_left _) (fun _ => List.mem_append_right _)
        (by simp [present, holders, hg, hq, hr])
    refine .inr ⟨?_, .inl ⟨admitted_eq_nil fun _ => id, rfl⟩⟩
    simpa only [arrived, present, holders, List.append_assoc, List.singleton_append] using hnew

theorem finish_serves {g : Gate} (h : g.Counted) (c : Nat) : g.ServesQueue (g.finish c) := by
  rcases finish_cases g c with ⟨-, heq⟩ | ⟨-, -, heq⟩ | ⟨-, -, heq⟩
  all_goals rw [heq]
  · exact serves_refl g
  · exact serves_of_sublist (List.Sublist.refl _) fun _ => mem_holders_of_erase_running
  · exact serves_put h (fun _ => mem_holders_of_erase_running) rfl 1

theorem resize_serves {g : Gate} (h : g.Counted) {n : Nat} (hn : 0 < n) :
    g.ServesQueue (g.resize n).2 := by
  rcases resize_cases g hn with ⟨-, heq⟩ | ⟨-, heq⟩ | ⟨-, heq⟩
  all_goals rw [heq]
  · exact serves_refl g
  · exact serves_put h (fun _ => id) rfl _
  · exact serves_refl g

theorem Move.serves {g g' : Gate} (m : Move g g') (h : g.Counted) :
    g.ServesQueue g' ∨ ∃ c, g.ServesNewcomer g' c := by
  cases m with
  | stay => exact .inl (serves_refl g)
  | look c hc => exact (look_serves h hc).imp_right fun hnew => ⟨c, hnew⟩
  | leave c => exact .inl (leave_serves h c)
  | finish c => exact .inl (finish_serves h c)
  | resize n hn => exact .inl (resize_serves h hn)

/-- Permits that come in leave the closed state alone, also when the count begins again. -/
theorem put_closed (g : Gate) (n : Nat) : (g.put n).closed = g.closed := by
  rw [closed, put_word]
  split
  · rfl
  · exact PermitWord.closed_add ..

theorem leave_closed (g : Gate) (c : Nat) : (g.leave c).closed = g.closed := by
  by_cases hc : c ∈ g.granted
  · rw [leave_of_granted hc]
    exact put_closed ..
  · rw [leave_of_not_granted hc]
    rfl

theorem shrunk_closed (g : Gate) (n : Nat) :
    (g.shrunk n).closed = (g.closed && g.semaphore == .keepsClosed) :=
  PermitWord.closed_forget ..

/-- No move closes a gate, and one opens it: a shrink, if the semaphore reopens. -/
theorem Move.closed_eq {g g' : Gate} (m : Move g g') :
    g'.closed = (g.closed && (g.semaphore == .keepsClosed || g.limit ≤ g'.limit)) := by
  have hsame (hlimit : g'.limit = g.limit) (hclosed : g'.closed = g.closed) :
      g'.closed = (g.closed && (g.semaphore == .keepsClosed || g.limit ≤ g'.limit)) := by
    rw [hclosed, hlimit, decide_eq_true (Nat.le_refl _), Bool.or_true, Bool.and_true]
  cases m with
  | stay => exact hsame rfl rfl
  | look c hc =>
    rcases look_cases g c with ⟨-, heq⟩ | ⟨-, heq⟩ | ⟨-, heq⟩ | ⟨-, -, hf, heq⟩ | ⟨-, -, -, heq⟩
    all_goals rw [heq] at hsame ⊢
    · exact hsame (leave_sizes g c).1 (leave_closed g c)
    · exact hsame rfl rfl
    · exact hsame rfl rfl
    · exact hsame rfl (PermitWord.closed_take hf)
    · exact hsame rfl rfl
  | leave c => exact hsame (leave_sizes g c).1 (leave_closed g c)
  | finish c =>
    rcases finish_cases g c with ⟨-, heq⟩ | ⟨-, -, heq⟩ | ⟨-, -, heq⟩
    all_goals rw [heq] at hsame ⊢
    · exact hsame rfl rfl
    · exact hsame rfl rfl
    · exact hsame rfl (put_closed ..)
  | resize n hn =>
    rcases resize_cases g hn with ⟨-, heq⟩ | ⟨hlt, heq⟩ | ⟨hlt, heq⟩
    all_goals rw [heq] at hsame ⊢
    · exact hsame rfl rfl
    · have hle : g.limit ≤ (g.grown n).limit := Nat.le_of_lt hlt
      rw [grown, put_closed, ← grown, decide_eq_true hle, Bool.or_true, Bool.and_true]
      rfl
    · have hgt : ¬ g.limit ≤ (g.shrunk n).limit := Nat.not_le.mpr hlt
      rw [shrunk_closed, decide_eq_false hgt, Bool.or_false]

/-- No move changes the semaphore, or whether the queue is closed. -/
theorem Move.keeps {g g' : Gate} (m : Move g g') :
    g'.semaphore = g.semaphore ∧ g'.queueClosed = g.queueClosed := by
  have hleave (c : Nat) : (g.leave c).semaphore = g.semaphore ∧
      (g.leave c).queueClosed = g.queueClosed := by
    obtain ⟨_, _, _, heq⟩ := leave_changes g c
    rw [heq]
    exact ⟨rfl, rfl⟩
  cases m with
  | stay => exact ⟨rfl, rfl⟩
  | look c hc =>
    rcases look_cases g c with ⟨-, heq⟩ | ⟨-, heq⟩ | ⟨-, heq⟩ | ⟨-, -, -, heq⟩ | ⟨-, -, -, heq⟩
    all_goals rw [heq]
    · exact hleave c
    all_goals exact ⟨rfl, rfl⟩
  | leave c => exact hleave c
  | finish c =>
    rcases finish_cases g c with ⟨-, heq⟩ | ⟨-, -, heq⟩ | ⟨-, -, heq⟩
    all_goals
      rw [heq]
      exact ⟨rfl, rfl⟩
  | resize n hn =>
    rcases resize_cases g hn with ⟨-, heq⟩ | ⟨-, heq⟩ | ⟨-, heq⟩
    all_goals
      rw [heq]
      exact ⟨rfl, rfl⟩

/-- The gate and its queue are open. -/
def IsOpen (g : Gate) : Prop := g.closed = false ∧ g.queueClosed = false

theorem IsOpen.turnsAway_eq {g : Gate} (h : g.IsOpen) (c : Nat) : g.turnsAway c = false := by
  rw [turnsAway, h.1, h.2, Bool.false_and, Bool.or_false]

theorem Move.isOpen {g g' : Gate} (m : Move g g') (h : g.IsOpen) : g'.IsOpen :=
  ⟨by rw [m.closed_eq, h.1, Bool.false_and], m.keeps.2.trans h.2⟩

/-- Who looks at an open gate is at it afterwards, and nobody leaves the queue. -/
theorem look_stays {g : Gate} (hopen : g.IsOpen) (c : Nat) :
    c ∈ (g.look c).2.present ∧ ∀ d ∈ g.queue, d ∈ (g.look c).2.queue := by
  rcases look_cases g c with ⟨haway, -⟩ | ⟨-, heq⟩ | ⟨hq, heq⟩ | ⟨-, -, -, heq⟩ | ⟨-, -, -, heq⟩
  · simp [hopen.turnsAway_eq] at haway
  all_goals
    rw [heq]
    simp_all [present, holders]

/-- The queue is closed, and nobody stands in it. -/
structure QueueShut (g : Gate) : Prop where
  closed : g.queueClosed = true
  empty : g.queue = []

theorem put_queue_eq_nil {g : Gate} (h : g.queue = []) (n : Nat) : (g.put n).queue = [] := by
  change g.queue.drop n = []
  rw [h, List.drop_nil]

theorem leave_queue_eq_nil {g : Gate} (h : g.queue = []) (c : Nat) : (g.leave c).queue = [] := by
  by_cases hc : c ∈ g.granted
  · rw [leave_of_granted hc]
    exact put_queue_eq_nil h 1
  · rw [leave_of_not_granted hc, h]
    rfl

/-- A closed queue stays empty: who looks is turned away or let in. -/
theorem QueueShut.look {g : Gate} (h : g.QueueShut) (c : Nat) :
    (g.look c).1 ≠ .wait ∧ (g.look c).2.queue = [] := by
  unfold Gate.look
  by_cases haway : g.turnsAway c = true
  · rw [if_pos haway]
    exact ⟨by simp, leave_queue_eq_nil h.empty c⟩
  rw [if_neg haway]
  by_cases hg : c ∈ g.granted
  · rw [if_pos hg]
    exact ⟨by simp, h.empty⟩
  rw [if_neg hg, if_neg (h.empty ▸ List.not_mem_nil)]
  by_cases hf : 0 < g.free
  · rw [if_pos hf]
    exact ⟨by simp, h.empty⟩
  · have hfree : g.free = 0 := by omega
    exact absurd haway (by simp [turnsAway, h.closed, hfree])

/-- A gate that owes nothing grows: its new permits go to the head of the queue. -/
theorem resize_admits {g : Gate} {n : Nat} (hgrow : g.limit < n) (hd : g.debt = 0) :
    (g.resize n).2.granted =
        g.granted ++ g.queue.take (min (n - g.limit) g.queue.length) ∧
      (g.resize n).2.queue = g.queue.drop (min (n - g.limit) g.queue.length) := by
  have hgrown : (g.grown n).granted =
        g.granted ++ g.queue.take (min (n - g.limit) g.queue.length) ∧
      (g.grown n).queue = g.queue.drop (min (n - g.limit) g.queue.length) := by
    simp [grown, put, hd, List.take_eq_take_min, List.drop_eq_drop_min]
  rcases resize_cases g (Nat.zero_lt_of_lt hgrow) with ⟨heq, -⟩ | ⟨-, heq⟩ | ⟨hlt, -⟩
  · omega
  · rwa [heq]
  · omega

end Gate

-- ---------------------------------------------------------------------------
-- Tickets
-- ---------------------------------------------------------------------------

/-- What is noted beside a run. -/
structure Ledger where
  /-- The ticket of the next caller to come. -/
  next : Nat
  /-- What each caller was given when it came last. -/
  ticket : Nat → Nat
  /-- The tickets of callers that got a permit, in this order. -/
  grants : List Nat

namespace Ledger

def empty : Ledger := ⟨0, fun _ => 0, []⟩

def arrive (l : Ledger) (caller : Nat) : Ledger :=
  { l with
    next := l.next + 1
    ticket := fun c => if c = caller then l.next else l.ticket c }

def grant (l : Ledger) (caller : Nat) : Ledger :=
  { l with grants := l.grants ++ [l.ticket caller] }

/-- The ledger after a step. A caller has its ticket before it gets a permit. -/
def after (l : Ledger) (g g' : Gate) : Ledger :=
  (g.admitted g').foldl grant ((g.arrived g').foldl arrive l)

/-- The tickets that were granted a permit, and after them those of the queue from its head. -/
def line (l : Ledger) (g : Gate) : List Nat := l.grants ++ g.queue.map l.ticket

/-- Permits were granted in the order in which callers came, and the queue waits in this order
for the next ones. -/
def InOrder (l : Ledger) (g : Gate) : Prop := (l.line g).Pairwise (· < ·)

structure Kept (l : Ledger) (g : Gate) : Prop where
  inOrder : l.InOrder g
  issued : ∀ n ∈ l.line g, n < l.next

theorem foldl_grant (callers : List Nat) (l : Ledger) :
    callers.foldl grant l = { l with grants := l.grants ++ callers.map l.ticket } := by
  induction callers generalizing l with
  | nil => simp
  | cons c rest ih => simp [ih, grant]

/-- Whoever comes is last in line. -/
theorem arrive_line {l : Ledger} {g : Gate} {c : Nat} (hc : c ∉ g.queue) :
    l.grants ++ (g.queue ++ [c]).map (l.arrive c).ticket = l.line g ++ [l.next] := by
  have hqueue : g.queue.map (l.arrive c).ticket = g.queue.map l.ticket := by
    refine List.map_congr_left fun d hd => ?_
    have hne : d ≠ c := fun heq => hc (heq ▸ hd)
    simp only [arrive, hne, ↓reduceIte]
  rw [List.map_append, hqueue]
  simp [line, arrive]

/-- Permits are granted along the line. -/
theorem line_after_queue {l : Ledger} {g g' : Gate} (h : g.ServesQueue g') :
    ((l.after g g').line g').Sublist (l.line g) ∧ (l.after g g').next = l.next := by
  have hafter : l.after g g' = { l with grants := l.grants ++ (g.admitted g').map l.ticket } := by
    rw [after, h.1, List.foldl_nil, foldl_grant]
  rw [hafter]
  refine ⟨?_, rfl⟩
  simp only [line, List.append_assoc, ← List.map_append]
  exact (h.2.map _).append_left _

theorem line_after_newcomer {l : Ledger} {g g' : Gate} {c : Nat} (h : g.ServesNewcomer g' c) :
    (l.after g g').line g' = l.line g ++ [l.next] ∧ (l.after g g').next = l.next + 1 := by
  have hlast := arrive_line (l := l) h.not_queued
  obtain ⟨harrived, ⟨hadmitted, hqueue⟩ | ⟨hadmitted, hqueue, hqueue'⟩⟩ := h
  · have hafter : l.after g g' = l.arrive c := by rw [after, harrived, hadmitted]; rfl
    rw [hafter, line, hqueue]
    exact ⟨hlast, rfl⟩
  · have hafter : l.after g g' = (l.arrive c).grant c := by rw [after, harrived, hadmitted]; rfl
    rw [hafter, line, hqueue', List.map_nil, List.append_nil]
    rw [hqueue] at hlast
    exact ⟨hlast, rfl⟩

theorem Kept.after {l : Ledger} {g g' : Gate} (h : l.Kept g)
    (hs : g.ServesQueue g' ∨ ∃ c, g.ServesNewcomer g' c) : (l.after g g').Kept g' := by
  rcases hs with hs | ⟨c, hs⟩
  · obtain ⟨hline, hnext⟩ := line_after_queue (l := l) hs
    exact ⟨h.inOrder.sublist hline, fun n hn => hnext ▸ h.issued n (hline.mem hn)⟩
  · obtain ⟨hline, hnext⟩ := line_after_newcomer (l := l) hs
    refine ⟨?_, fun n hn => ?_⟩
    · rw [InOrder, hline, List.pairwise_append]
      exact ⟨h.inOrder, List.pairwise_singleton .., by simpa using h.issued⟩
    · rw [hline, List.mem_append, List.mem_singleton] at hn
      rw [hnext]
      rcases hn with hn | rfl
      · exact Nat.lt_succ_of_lt (h.issued n hn)
      · exact Nat.lt_succ_self _

end Ledger

namespace Throttle

open Relation (ReflTransGen)

variable {α : Type}

/-- A step, and the ledger kept beside it. -/
def Noted (s s' : Throttle α × Ledger) : Prop :=
  Step s.1 s'.1 ∧ s'.2 = s.2.after s.1.gate s'.1.gate

-- ---------------------------------------------------------------------------
-- Coming and staying
-- ---------------------------------------------------------------------------

/-- A caller comes to the gate when its call looks. -/
theorem Step.eq_poll_of_arrived {t t' : Throttle α} (s : Step t t') (h : t.Orderly) {c : Nat}
    (hc : c ∈ t.gate.arrived t'.gate) : t' = t.poll c := by
  have nobody (hserves : t.gate.ServesQueue t'.gate) : t' = t.poll c := by
    simp [hserves.1] at hc
  cases s with
  | start number cancelled => exact nobody (Gate.serves_refl _)
  | cancel number => exact nobody (Gate.serves_refl _)
  | poll number =>
    have looked (hw : number ∈ t.waiting) (heq : (t.poll number).gate = (t.gate.look number).2) :
        t.poll number = t.poll c := by
      rw [heq] at hc nobody
      rcases Gate.look_serves h.counted (h.not_seated hw) with hserves | hnew
      · exact nobody hserves
      · rw [hnew.1, List.mem_singleton] at hc
        rw [hc]
    rcases poll_cases t number with heq | ⟨hw, ⟨-, heq⟩ | ⟨-, -, heq⟩ | ⟨-, -, heq⟩ | ⟨-, -, heq⟩⟩
    · rw [heq] at nobody
      exact heq.trans (nobody (Gate.serves_refl _))
    · rw [heq] at nobody
      exact nobody (Gate.leave_serves h.counted number)
    · exact looked hw heq
    · exact looked hw heq
    · exact looked hw heq
  | drop number => exact nobody (Gate.leave_serves h.counted number)
  | finish number result => exact nobody (Gate.finish_serves h.counted number)
  | resize limit hpos => exact nobody (Gate.resize_serves h.counted hpos)

theorem Orderly.call?_eq {t : Throttle α} (h : t.Orderly) {call : Call} (hmem : call ∈ t.calls) :
    t.call? call.number = some call := by
  cases hfound : t.call? call.number with
  | none =>
    have := List.find?_eq_none.mp hfound call hmem
    simp at this
  | some other =>
    obtain ⟨hother, hnumber⟩ := call?_eq_some hfound
    rw [eq_of_number_eq h.distinct hother hmem hnumber]

/-- A call that looks at an open gate before its cancellation is at the gate afterwards. -/
theorem Orderly.present_poll {t : Throttle α} (h : t.Orderly) (hopen : t.gate.IsOpen)
    {call : Call} (hmem : call ∈ t.calls) (hrun : call.running = false)
    (hcancel : call.cancelled = false) : call.number ∈ (t.poll call.number).gate.present := by
  have hgate : (t.poll call.number).gate = (t.gate.look call.number).2 := by
    unfold Throttle.poll
    simp only [h.call?_eq hmem, hrun, hcancel, Bool.false_eq_true, ↓reduceIte]
    rcases t.gate.look call.number with ⟨_ | _ | _, gate⟩ <;> rfl
  rw [hgate]
  exact (Gate.look_stays hopen call.number).1

/-- A caller in the queue stays until it gets a permit or its call goes away. -/
theorem Step.stays {t t' : Throttle α} (s : Step t t') (h : t.Orderly)
    (hopen : t.gate.IsOpen) {c : Nat} (hc : c ∈ t.gate.queue)
    (hcall : c ∈ t'.calls.map (·.number)) : c ∈ t'.gate.present := by
  have hwait : c ∈ t.gate.waiters := List.mem_append_left _ hc
  have hpresent {g : Gate} (hmem : c ∈ g.waiters) : c ∈ g.present := by
    simp only [Gate.waiters, Gate.present, Gate.holders, List.mem_append] at hmem ⊢
    exact hmem.imp_right .inl
  have hleave {number : Nat} (hcall : c ∈ (t.remove number).calls.map (·.number)) :
      c ∈ (t.gate.leave number).present := by
    obtain ⟨call, hmem, rfl⟩ := List.mem_map.mp hcall
    have hne : call.number ≠ number := by simpa using (List.mem_filter.mp hmem).2
    exact hpresent ((Gate.mem_waiters_leave h.counted).mpr ⟨hwait, hne⟩)
  have hlook (number : Nat) : c ∈ (t.gate.look number).2.present :=
    List.mem_append_left _ ((Gate.look_stays hopen number).2 c hc)
  cases s with
  | start number cancelled => exact hpresent hwait
  | cancel number => exact hpresent hwait
  | poll number =>
    rcases poll_cases t number with
      heq | ⟨-, ⟨hcalls, heq⟩ | ⟨-, -, heq⟩ | ⟨-, -, heq⟩ | ⟨-, -, heq⟩⟩
    all_goals rw [heq]
    · exact hpresent hwait
    · exact hleave (hcalls ▸ hcall)
    · exact hlook number
    · exact hlook number
    · exact hlook number
  | drop number => exact hleave hcall
  | finish number result => exact hpresent (Gate.mem_waiters_finish.mpr hwait)
  | resize limit hpos => exact hpresent ((Gate.mem_waiters_resize hpos).mpr hwait)

-- ---------------------------------------------------------------------------
-- Runs
-- ---------------------------------------------------------------------------

theorem ofSemaphore_open {semaphore : Semaphore} {limit : Nat} {t : Throttle α}
    (h : ofSemaphore semaphore limit = .ok t) : t.gate.IsOpen := by
  obtain ⟨-, rfl⟩ := ofSemaphore_ok h
  exact ⟨PermitWord.closed_ofCount _, rfl⟩

theorem run_open {new t : Throttle α} (h : new.Orderly) (hopen : new.gate.IsOpen)
    (hrun : ReflTransGen Step new t) : t.gate.IsOpen := by
  induction hrun with
  | refl => exact hopen
  | tail hrun s ih => exact (s.move (run_orderly h hrun)).isOpen ih

theorem noted_tail {s : Throttle α × Ledger} {t t' : Throttle α} {l : Ledger}
    (hrun : ReflTransGen Noted s (t, l)) (h : Step t t') :
    ReflTransGen Noted s (t', l.after t.gate t'.gate) :=
  hrun.tail ⟨h, rfl⟩

/-- A ledger can be kept beside every run. -/
theorem run_noted {new t : Throttle α} (hrun : ReflTransGen Step new t) :
    ∃ ledger, ReflTransGen Noted (new, .empty) (t, ledger) := by
  induction hrun with
  | refl => exact ⟨_, .refl⟩
  | tail _ s ih =>
    obtain ⟨ledger, hnoted⟩ := ih
    exact ⟨_, noted_tail hnoted s⟩

theorem run_kept {s s' : Throttle α × Ledger} (h : s.1.Orderly) (hk : s.2.Kept s.1.gate)
    (hrun : ReflTransGen Noted s s') : s'.1.Orderly ∧ s'.2.Kept s'.1.gate := by
  induction hrun with
  | refl => exact ⟨h, hk⟩
  | tail _ noted ih =>
    obtain ⟨hstep, hledger⟩ := noted
    refine ⟨hstep.orderly ih.1, ?_⟩
    rw [hledger]
    exact ih.2.after ((hstep.move ih.1).serves ih.1.counted)

/-- Callers get permits in the order in which they came. In every run, whatever the limits,
the tickets of the permits that were granted go up, and the queue waits in the order of its
tickets for the next. A caller comes when its call looks first, if it is not cancelled by then,
and stays in the queue until it gets a permit or its call goes away. Nobody queues while a
permit is free, and a gate that owes nothing grows by granting its new permits at once. -/
theorem granted_in_order {limit : Nat} {new t : Throttle α} (hnew : ofLimit limit = .ok new)
    (hrun : ReflTransGen Step new t) :
    (∃ ledger, ReflTransGen Noted (new, .empty) (t, ledger)) ∧
      (∀ ledger, ReflTransGen Noted (new, .empty) (t, ledger) → ledger.InOrder t.gate) ∧
      (∀ call ∈ t.calls, call.running = false → call.cancelled = false →
        call.number ∈ (t.poll call.number).gate.present) ∧
      (∀ t', Step t t' → (∀ c ∈ t.gate.arrived t'.gate, t' = t.poll c) ∧
        ∀ c ∈ t.gate.queue, c ∈ t'.calls.map (·.number) → c ∈ t'.gate.present) ∧
      (t.gate.queue ≠ [] → t.gate.free = 0) ∧
      ∀ n, t.gate.limit < n → t.gate.debt = 0 →
        (t.resize n).2.gate.granted = t.gate.granted ++
            t.gate.queue.take (min (n - t.gate.limit) t.gate.queue.length) ∧
          (t.resize n).2.gate.queue =
            t.gate.queue.drop (min (n - t.gate.limit) t.gate.queue.length) := by
  have hnew' := ofSemaphore_orderly hnew
  have horderly := run_orderly hnew' hrun
  have hopen : t.gate.IsOpen := run_open hnew' (ofSemaphore_open hnew) hrun
  have hempty : Ledger.empty.Kept new.gate := by
    rw [(ofSemaphore_ok hnew).2]
    exact ⟨List.Pairwise.nil, List.forall_mem_nil _⟩
  refine ⟨run_noted hrun, fun ledger hnoted => (run_kept hnew' hempty hnoted).2.inOrder,
    fun call hmem => horderly.present_poll hopen hmem, fun t' s => ⟨fun c hc => ?_, fun c hc => ?_⟩,
    horderly.counted.busy, fun n hgrow hd => Gate.resize_admits hgrow hd⟩
  · exact s.eq_poll_of_arrived horderly hc
  · exact s.stays horderly hopen hc

/-- Two callers got a permit as they came and the third when the first search ended; the fourth
is at the head of the queue, and gets one as soon as the limit grows. -/
theorem granted_in_order_handedOver : ∃ (new : Throttle Unit) (ledger : Ledger),
    ofLimit 2 = .ok new ∧ ReflTransGen Noted (new, .empty) (handedOver, ledger) ∧
      ledger.grants = [0, 1, 2] ∧ ledger.line handedOver.gate = [0, 1, 2, 3] ∧
      ledger.InOrder handedOver.gate ∧ (handedOver.resize 5).2.gate.granted = [2, 3] := by
  obtain ⟨new, hnew, hrun⟩ := handedOver_reachable
  obtain rfl := (ofSemaphore_ok hnew).2
  have hnoted := noted_tail (noted_tail (noted_tail (noted_tail (noted_tail (noted_tail
    (noted_tail (noted_tail (noted_tail
      (.refl (a := ((opened .keepsClosed 2 : Throttle Unit), Ledger.empty)))
      (.start _ 0 false (by decide))) (.poll _ 0)) (.start _ 1 false (by decide))) (.poll _ 1))
      (.start _ 2 false (by decide))) (.poll _ 2)) (.start _ 3 false (by decide))) (.poll _ 3))
      (.finish _ 0 () (by decide))
  have hfair := granted_in_order hnew (run_of_paid hrun)
  exact ⟨_, _, rfl, hnoted, by decide, by decide, hfair.2.1 _ hnoted,
    (hfair.2.2.2.2.2 5 (by decide) rfl).1⟩

end Throttle

end GuardedSearch
