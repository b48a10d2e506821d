import GuardedSearch.Gate

/-!
# Permits are counted

What every event does to the counts of a gate. `Move` is the step relation of a gate, and
`Counted` holds after every move: permits that are free or held never exceed the limit and
what is owed, and nobody queues while a permit is free. `Move.overAdmits_iff` names the only
two moves that can let a caller in above the limit.
-/

namespace GuardedSearch.Gate

/-- The callers that hold a permit, whether or not they have looked since they got it. -/
def holders (g : Gate) : List Nat := g.granted ++ g.running

/-- Some caller holds a permit after the step that did not hold one before. -/
def Grants (g g' : Gate) : Prop := ∃ c ∈ g'.holders, c ∉ g.holders

/-- Some caller gets a permit in the step while `limit` or more others hold one. Permits are
granted one after another and nobody gives one up after the first grant of a step, so the
others are counted after the step. -/
def OverAdmits (g g' : Gate) : Prop :=
  ∃ c ∈ g'.holders, c ∉ g.holders ∧ g'.limit ≤ (g'.holders.erase c).length

/-- What happens to an open gate. A caller whose search runs does not look again. -/
inductive Move : Gate → Gate → Prop
  | stay (g : Gate) : Move g g
  | look (g : Gate) (caller : Nat) (h : caller ∉ g.running) : Move g (g.look caller).2
  | leave (g : Gate) (caller : Nat) : Move g (g.leave caller)
  | finish (g : Gate) (caller : Nat) : Move g (g.finish caller)
  | resize (g : Gate) (limit : Nat) (h : 0 < limit) : Move g (g.resize limit).2

/-- A caller that was handed a permit goes away without a search. -/
def GivesBack (g g' : Gate) : Prop := ∃ c ∈ g.granted, c ∉ g'.holders

/-- A caller gets a permit that was free. -/
def TakesFree (g g' : Gate) : Prop := g.Grants g' ∧ g'.free < g.free

structure Counted (g : Gate) : Prop where
  bounded : g.free + g.held ≤ g.limit + g.debt
  busy : g.queue ≠ [] → g.free = 0
  once : (g.queue ++ g.granted ++ g.running).Nodup

theorem held_eq_length (g : Gate) : g.held = g.holders.length := by
  simp [held, holders]

theorem overAdmits_iff {g g' : Gate} : g.OverAdmits g' ↔ g.Grants g' ∧ g'.limit < g'.held := by
  rw [held_eq_length]
  constructor
  · rintro ⟨c, hc, hnew, hle⟩
    rw [List.length_erase_of_mem hc] at hle
    have := List.length_pos_of_mem hc
    exact ⟨⟨c, hc, hnew⟩, by omega⟩
  · rintro ⟨⟨c, hc, hnew⟩, hlt⟩
    refine ⟨c, hc, hnew, ?_⟩
    rw [List.length_erase_of_mem hc]
    omega

theorem not_grants_of_subset {g g' : Gate} (h : ∀ c ∈ g'.holders, c ∈ g.holders) : ¬ g.Grants g' :=
  fun ⟨c, hc, hnew⟩ => hnew (h c hc)

theorem mem_holders_of_erase_granted {g : Gate} {c d : Nat}
    (h : d ∈ ({ g with granted := g.granted.erase c } : Gate).holders) : d ∈ g.holders := by
  simp only [holders, List.mem_append] at h ⊢
  exact h.imp_left List.mem_of_mem_erase

theorem mem_holders_of_erase_running {g : Gate} {c d : Nat}
    (h : d ∈ ({ g with running := g.running.erase c } : Gate).holders) : d ∈ g.holders := by
  simp only [holders, List.mem_append] at h ⊢
  exact h.imp_right List.mem_of_mem_erase

theorem free_lt (g : Gate) : g.free < PermitWord.size := g.word.count_lt

theorem opened_free {semaphore : Semaphore} {limit : Nat} (h : limit ≤ maxPermits) :
    (opened semaphore limit).free = limit :=
  PermitWord.count_ofCount (Nat.lt_of_le_of_lt h (by decide))

-- ---------------------------------------------------------------------------
-- Permits coming in
-- ---------------------------------------------------------------------------

theorem put_held (g : Gate) (n : Nat) : (g.put n).held = g.held + min n g.queue.length := by
  simp only [held, put, List.length_append, List.length_take]
  omega

theorem put_word (g : Gate) (n : Nat) : (g.put n).word =
    if maxPermits < n - g.queue.length then g.word else g.word.add (n - g.queue.length) := rfl

/-- What is free after permits come in, for a count that may begin again at zero. -/
theorem put_free (g : Gate) (n : Nat) : (g.put n).free =
    if maxPermits < n - g.queue.length then g.free
    else (g.free + (n - g.queue.length)) % PermitWord.size := by
  rw [free, put_word]
  split
  · rfl
  · exact PermitWord.count_add ..

theorem put_free_le (g : Gate) (n : Nat) : (g.put n).free ≤ g.free + (n - g.queue.length) := by
  rw [put_free]
  split
  · exact Nat.le_add_right ..
  · exact Nat.mod_le ..

/-- No permit becomes free while the queue takes them all. -/
theorem put_free_of_le {g : Gate} {n : Nat} (h : n ≤ g.queue.length) : (g.put n).free = g.free := by
  rw [put_free, Nat.sub_eq_zero_of_le h, if_neg (Nat.not_lt_zero _), Nat.add_zero,
    Nat.mod_eq_of_lt g.free_lt]

/-- A permit that comes back to a gate with none free, and that nobody queues for, is free. -/
theorem put_one_free {g : Gate} (hf : g.free = 0) :
    (g.put 1).free = 1 - g.queue.length := by
  have hone : 1 - g.queue.length ≤ 1 := Nat.sub_le ..
  rw [put_free, hf, Nat.zero_add, if_neg (Nat.not_lt.mpr (Nat.le_trans hone (by decide))),
    Nat.mod_eq_of_lt (Nat.lt_of_le_of_lt hone (by decide))]

theorem put_holders (g : Gate) (n : Nat) (c : Nat) :
    c ∈ (g.put n).holders ↔ c ∈ g.queue.take n ∨ c ∈ g.holders := by
  simp only [holders, put, List.mem_append]
  grind

theorem put_counted {g : Gate} {n : Nat} (hsum : g.free + g.held + n ≤ g.limit + g.debt)
    (hbusy : g.queue ≠ [] → g.free = 0) (honce : (g.queue ++ g.granted ++ g.running).Nodup) :
    (g.put n).Counted := by
  refine ⟨?_, ?_, ?_⟩
  · have hfree := put_free_le g n
    rw [put_held]
    change _ ≤ g.limit + g.debt
    omega
  · intro hq
    have hlen : n < g.queue.length := by simpa [put] using hq
    rw [put_free_of_le (Nat.le_of_lt hlen)]
    exact hbusy (by rintro h; simp [h] at hlen)
  · have hperm : ((g.put n).queue ++ (g.put n).granted ++ (g.put n).running).Perm
        (g.queue ++ g.granted ++ g.running) := by
      refine List.Perm.append_right _ ?_
      calc (g.queue.drop n ++ (g.granted ++ g.queue.take n)).Perm
            (g.granted ++ g.queue.take n ++ g.queue.drop n) := List.perm_append_comm
        _ = g.granted ++ g.queue := by rw [List.append_assoc, List.take_append_drop]
        List.Perm _ (g.queue ++ g.granted) := List.perm_append_comm
    exact hperm.nodup_iff.mpr honce

-- ---------------------------------------------------------------------------
-- Single events
-- ---------------------------------------------------------------------------

theorem leave_of_granted {g : Gate} {c : Nat} (hc : c ∈ g.granted) :
    g.leave c = { g with granted := g.granted.erase c }.put 1 := by
  simp [leave, hc]

theorem leave_of_not_granted {g : Gate} {c : Nat} (hc : c ∉ g.granted) :
    g.leave c = { g with queue := g.queue.erase c } := by
  simp [leave, hc]

/-- All that changes when a caller goes away. -/
theorem leave_changes (g : Gate) (c : Nat) : ∃ word queue granted,
    g.leave c = { g with word := word, queue := queue, granted := granted } := by
  by_cases hc : c ∈ g.granted
  · exact ⟨_, _, _, leave_of_granted hc⟩
  · exact ⟨_, _, _, leave_of_not_granted hc⟩

theorem leave_counted {g : Gate} (h : g.Counted) (c : Nat) : (g.leave c).Counted := by
  by_cases hc : c ∈ g.granted
  · rw [leave_of_granted hc]
    refine put_counted ?_ h.busy ?_
    · have hlen := List.length_erase_of_mem hc
      have hpos := List.length_pos_of_mem hc
      have := h.bounded
      simp only [held, free] at this ⊢
      omega
    · refine h.once.sublist ?_
      exact (List.Sublist.append_left (List.erase_sublist ..) _).append_right _
  · rw [leave_of_not_granted hc]
    refine ⟨h.bounded, fun hq => h.busy ?_, h.once.sublist ?_⟩
    · rintro h0
      simp [h0] at hq
    · exact ((List.erase_sublist ..).append_right _).append_right _

/-- What a look does to a gate: nothing to the counts, or it takes a free permit. -/
theorem look_cases (g : Gate) (c : Nat) :
    (g.turnsAway c = true ∧ (g.look c).2 = g.leave c) ∨
    (c ∈ g.granted ∧ (g.look c).2 =
      { g with granted := g.granted.erase c, running := g.running ++ [c] }) ∨
    (c ∈ g.queue ∧ (g.look c).2 = g) ∨
    (c ∉ g.granted ∧ c ∉ g.queue ∧ 0 < g.free ∧ (g.look c).2 =
      { g with word := g.word.take, running := g.running ++ [c] }) ∨
    (c ∉ g.granted ∧ c ∉ g.queue ∧ g.free = 0 ∧ (g.look c).2 =
      { g with queue := g.queue ++ [c] }) := by
  unfold look
  by_cases haway : g.turnsAway c = true
  · exact .inl ⟨haway, by rw [if_pos haway]⟩
  · rw [if_neg haway]
    by_cases hg : c ∈ g.granted
    · exact .inr (.inl ⟨hg, by rw [if_pos hg]⟩)
    · rw [if_neg hg]
      by_cases hq : c ∈ g.queue
      · exact .inr (.inr (.inl ⟨hq, by rw [if_pos hq]⟩))
      · rw [if_neg hq]
        by_cases hf : 0 < g.free
        · exact .inr (.inr (.inr (.inl ⟨hg, hq, hf, by rw [if_pos hf]⟩)))
        · exact .inr (.inr (.inr (.inr ⟨hg, hq, by omega, by rw [if_neg hf]⟩)))

theorem leave_running (g : Gate) (c : Nat) : (g.leave c).running = g.running := by
  obtain ⟨_, _, _, heq⟩ := leave_changes g c
  rw [heq]

theorem look_running (g : Gate) (c : Nat) :
    (g.look c).2.running = if (g.look c).1 = .enter then g.running ++ [c] else g.running := by
  unfold look
  repeat' split
  all_goals simp_all [leave_running]

theorem look_counted {g : Gate} (h : g.Counted) {c : Nat} (hc : c ∉ g.running) :
    (g.look c).2.Counted := by
  rcases look_cases g c with ⟨-, heq⟩ | ⟨hg, heq⟩ | ⟨-, heq⟩ | ⟨hg, hq, hf, heq⟩ | ⟨hg, hq, hf, heq⟩
  all_goals rw [heq]
  · exact leave_counted h c
  · have hlen := List.length_erase_of_mem hg
    have hpos := List.length_pos_of_mem hg
    refine ⟨?_, h.busy, ?_⟩
    · have := h.bounded
      simp only [held, free, List.length_append, List.length_singleton] at this ⊢
      omega
    · have hperm : (g.queue ++ g.granted.erase c ++ (g.running ++ [c])).Perm
          (g.queue ++ g.granted ++ g.running) := by
        have := List.perm_cons_erase hg
        grind
      exact hperm.nodup_iff.mpr h.once
  · exact h
  · refine ⟨?_, fun hq => ?_, ?_⟩
    · have := h.bounded
      have hfree := PermitWord.count_take hf
      simp only [held, free, List.length_append, List.length_singleton] at hf hfree this ⊢
      omega
    · have := h.busy hq
      omega
    · have := h.once
      grind
  · refine ⟨h.bounded, fun _ => hf, ?_⟩
    have := h.once
    grind

theorem finish_cases (g : Gate) (c : Nat) :
    (c ∉ g.running ∧ g.finish c = g) ∨
    (c ∈ g.running ∧ 0 < g.debt ∧ g.finish c =
      { g with running := g.running.erase c, debt := g.debt - 1 }) ∨
    (c ∈ g.running ∧ g.debt = 0 ∧ g.finish c =
      { g with running := g.running.erase c }.put 1) := by
  unfold finish
  by_cases hc : c ∈ g.running
  · rw [if_pos hc]
    by_cases hd : 0 < g.debt
    · exact .inr (.inl ⟨hc, hd, by simp [hd]⟩)
    · exact .inr (.inr ⟨hc, by omega, by simp [hd]⟩)
  · exact .inl ⟨hc, by rw [if_neg hc]⟩

theorem finish_running (g : Gate) (c : Nat) : (g.finish c).running = g.running.erase c := by
  rcases finish_cases g c with ⟨hc, heq⟩ | ⟨-, -, heq⟩ | ⟨-, -, heq⟩
  all_goals rw [heq]
  · exact (List.erase_of_not_mem hc).symm
  · rfl

theorem finish_counted {g : Gate} (h : g.Counted) (c : Nat) : (g.finish c).Counted := by
  have honce : (g.queue ++ g.granted ++ g.running.erase c).Nodup :=
    h.once.sublist (List.Sublist.append_left (List.erase_sublist ..) _)
  have hb := h.bounded
  rcases finish_cases g c with ⟨-, heq⟩ | ⟨hc, hd, heq⟩ | ⟨hc, hd, heq⟩
  · rwa [heq]
  · have hlen := List.length_erase_of_mem hc
    have hpos := List.length_pos_of_mem hc
    rw [heq]
    refine ⟨?_, h.busy, honce⟩
    simp only [held, free] at hb ⊢
    omega
  · have hlen := List.length_erase_of_mem hc
    have hpos := List.length_pos_of_mem hc
    rw [heq]
    refine put_counted ?_ h.busy honce
    simp only [held, free] at hb ⊢
    omega

/-- A grown gate, whether or not it can count its permits. -/
def grown (g : Gate) (limit : Nat) : Gate :=
  { g with limit := limit, debt := g.debt - (limit - g.limit) }.put
    (limit - g.limit - g.debt)

/-- A gate that gives up free permits for a smaller limit and owes the rest. -/
def shrunk (g : Gate) (limit : Nat) : Gate :=
  { g with
    limit := limit
    debt := g.debt + (g.limit - limit) - g.free
    word := g.word.forget g.semaphore (min (g.debt + (g.limit - limit)) g.free) }

theorem shrunk_free (g : Gate) (n : Nat) :
    (g.shrunk n).free = g.free - (g.debt + (g.limit - n)) := by
  change (g.word.forget _ _).count = _
  rw [PermitWord.count_forget, free]
  omega

theorem resize_cases (g : Gate) {n : Nat} (hn : 0 < n) :
    (n = g.limit ∧ (g.resize n).2 = g) ∨
    (g.limit < n ∧ (g.resize n).2 = g.grown n) ∨
    (n < g.limit ∧ (g.resize n).2 = g.shrunk n) := by
  unfold resize
  rw [if_neg (by omega)]
  by_cases heq : n = g.limit
  · exact .inl ⟨heq, by rw [if_pos heq]⟩
  rw [if_neg heq]
  by_cases hgrow : g.limit < n
  · have hrepaid : g.debt - min g.debt (n - g.limit) = g.debt - (n - g.limit) := by omega
    have hspare : n - g.limit - min g.debt (n - g.limit) = n - g.limit - g.debt := by omega
    exact .inr (.inl ⟨hgrow, by simp only [hgrow, ↓reduceIte, hrepaid, hspare, grown]⟩)
  · have howed : g.debt + (g.limit - n) - min (g.debt + (g.limit - n)) g.free =
        g.debt + (g.limit - n) - g.free := by omega
    exact .inr (.inr ⟨by omega, by simp only [hgrow, ↓reduceIte, howed, shrunk]⟩)

theorem grown_counted {g : Gate} (h : g.Counted) {n : Nat} (hn : g.limit < n) :
    (g.grown n).Counted := by
  refine put_counted ?_ h.busy h.once
  have := h.bounded
  simp only [held, free] at this ⊢
  omega

theorem resize_running (g : Gate) {n : Nat} (hn : 0 < n) : (g.resize n).2.running = g.running := by
  rcases resize_cases g hn with ⟨-, heq⟩ | ⟨-, heq⟩ | ⟨-, heq⟩
  all_goals rw [heq]
  all_goals rfl

theorem resize_counted {g : Gate} (h : g.Counted) {n : Nat} (hn : 0 < n) :
    (g.resize n).2.Counted := by
  rcases resize_cases g hn with ⟨-, heq⟩ | ⟨hlt, heq⟩ | ⟨hlt, heq⟩
  all_goals rw [heq]
  · exact h
  · exact grown_counted h hlt
  · have hfree := shrunk_free g n
    refine ⟨?_, fun hq => ?_, h.once⟩
    · have := h.bounded
      change _ + g.held ≤ n + (g.debt + (g.limit - n) - g.free)
      omega
    · have := h.busy hq
      omega

-- ---------------------------------------------------------------------------
-- Moves
-- ---------------------------------------------------------------------------

theorem Move.counted {g g' : Gate} (m : Move g g') (h : g.Counted) : g'.Counted := by
  cases m with
  | stay => exact h
  | look c hc => exact look_counted h hc
  | leave c => exact leave_counted h c
  | finish c => exact finish_counted h c
  | resize n hn => exact resize_counted h hn

theorem Counted.held_le {g : Gate} (h : g.Counted) (hd : g.debt = 0) : g.held ≤ g.limit := by
  have := h.bounded
  omega

/-- No caller is let in above the limit by a step after which nothing is owed. -/
theorem Counted.not_overAdmits {g g' : Gate} (h : g'.Counted) (hd : g.Grants g' → g'.debt = 0) :
    ¬ g.OverAdmits g' := by
  rw [overAdmits_iff]
  rintro ⟨hg, hlt⟩
  have := h.held_le (hd hg)
  omega

theorem leave_overAdmits_iff {g : Gate} (h : g.Counted) {c : Nat} (hc : c ∈ g.granted) :
    g.OverAdmits (g.leave c) ↔ g.queue ≠ [] ∧ g.limit < g.held := by
  rw [overAdmits_iff, leave_of_granted hc]
  have hlen := List.length_erase_of_mem hc
  have hpos := List.length_pos_of_mem hc
  by_cases hq : g.queue = []
  · simp only [hq, ne_eq, not_true_eq_false, false_and, iff_false, not_and]
    intro hg
    refine absurd hg (not_grants_of_subset fun d hd => ?_)
    rw [put_holders] at hd
    simp only [List.take_nil, List.not_mem_nil, false_or] at hd
    exact mem_holders_of_erase_granted hd
  · obtain ⟨d, rest, hcons⟩ := List.exists_cons_of_ne_nil hq
    have hgrants : g.Grants ({ g with granted := g.granted.erase c }.put 1) := by
      refine ⟨d, ?_, ?_⟩
      · simp [put_holders, hcons]
      · have := h.once
        simp only [hcons, holders] at this ⊢
        grind
    have hheld : ({ g with granted := g.granted.erase c }.put 1).held = g.held := by
      rw [put_held]
      simp only [held, hcons, List.length_cons]
      omega
    rw [hheld]
    exact ⟨fun h => ⟨hq, h.2⟩, fun h => ⟨hgrants, h.2⟩⟩

theorem not_givesBack {g g' : Gate} (h : ∀ c ∈ g.granted, c ∈ g'.holders) : ¬ g.GivesBack g' :=
  fun ⟨c, hc, hgone⟩ => hgone (h c hc)

theorem leave_givesBack {g : Gate} (h : g.Counted) {c : Nat} (hc : c ∈ g.granted) :
    g.GivesBack (g.leave c) := by
  refine ⟨c, hc, ?_⟩
  rw [leave_of_granted hc, put_holders]
  have := h.once
  have hq : c ∉ g.queue.take 1 := fun hmem => by
    have := List.mem_of_mem_take hmem
    grind
  simp only [holders] at hq ⊢
  grind

theorem finish_debt {g : Gate} {c : Nat} (hg : g.Grants (g.finish c)) : (g.finish c).debt = 0 := by
  rcases finish_cases g c with ⟨-, heq⟩ | ⟨-, -, heq⟩ | ⟨-, hd, heq⟩
  · rw [heq] at hg
    exact absurd hg (not_grants_of_subset fun _ => id)
  · rw [heq] at hg
    exact absurd hg (not_grants_of_subset fun _ => mem_holders_of_erase_running)
  · rw [heq]
    exact hd

theorem resize_debt {g : Gate} {n : Nat} (hn : 0 < n) (hg : g.Grants (g.resize n).2) :
    (g.resize n).2.debt = 0 := by
  have hgrown (hg : g.Grants (g.grown n)) : (g.grown n).debt = 0 := by
    obtain ⟨c, hc, hnew⟩ := hg
    rw [grown, put_holders] at hc
    rcases hc with hc | hc
    · have hpos := List.length_pos_of_mem hc
      simp only [List.length_take] at hpos
      simp only [grown, put]
      omega
    · exact absurd hc hnew
  rcases resize_cases g hn with ⟨-, heq⟩ | ⟨-, heq⟩ | ⟨-, heq⟩
  all_goals rw [heq] at hg ⊢
  · exact absurd hg (not_grants_of_subset fun _ => id)
  · exact hgrown hg
  · exact absurd hg (not_grants_of_subset fun _ => id)

/-- The two ways above the limit: a permit that comes back unused is handed on although more
are held than the limit allows, or a free one is taken although the limit is reached. -/
def Oversteps (g g' : Gate) : Prop :=
  (g.GivesBack g' ∧ g.queue ≠ [] ∧ g.limit < g.held) ∨ (g.TakesFree g' ∧ g.limit ≤ g.held)

/-- A step after which the same callers hold permits lets nobody in. -/
theorem overAdmits_iff_oversteps_of_same {g g' : Gate} (h : ∀ c, c ∈ g'.holders ↔ c ∈ g.holders) :
    g.OverAdmits g' ↔ g.Oversteps g' := by
  have hgrants : ¬ g.Grants g' := not_grants_of_subset fun c => (h c).mp
  have hback : ¬ g.GivesBack g' :=
    not_givesBack fun c hc => (h c).mpr (List.mem_append_left _ hc)
  simp only [overAdmits_iff, Oversteps, TakesFree, hgrants, hback, false_and, or_false]

/-- Permits that come in go to callers in the queue, so that no free one is taken. -/
theorem not_takesFree_put {g g₁ : Gate} (h : g.Counted) (hkept : ∀ c ∈ g₁.holders, c ∈ g.holders)
    (hqueue : g₁.queue = g.queue) (n : Nat) : ¬ g.TakesFree (g₁.put n) := by
  rintro ⟨⟨c, hc, hnew⟩, hlt⟩
  rcases (put_holders ..).mp hc with hc | hc
  · have hmem : c ∈ g.queue := hqueue ▸ List.mem_of_mem_take hc
    have := h.busy (List.ne_nil_of_mem hmem)
    omega
  · exact hnew (hkept c hc)

theorem leave_overAdmits_iff_oversteps {g : Gate} (h : g.Counted) (c : Nat) :
    g.OverAdmits (g.leave c) ↔ g.Oversteps (g.leave c) := by
  by_cases hc : c ∈ g.granted
  · have htakes : ¬ g.TakesFree (g.leave c) := by
      rw [leave_of_granted hc]
      exact not_takesFree_put h (fun _ => mem_holders_of_erase_granted) rfl 1
    simp only [leave_overAdmits_iff h hc, Oversteps, leave_givesBack h hc, htakes, true_and,
      false_and, or_false]
  · rw [leave_of_not_granted hc]
    exact overAdmits_iff_oversteps_of_same fun _ => .rfl

theorem look_overAdmits_iff_oversteps {g : Gate} (h : g.Counted) {c : Nat} (hr : c ∉ g.running) :
    g.OverAdmits (g.look c).2 ↔ g.Oversteps (g.look c).2 := by
  rcases look_cases g c with ⟨-, heq⟩ | ⟨hg, heq⟩ | ⟨-, heq⟩ | ⟨hg, hq, hf, heq⟩ | ⟨hg, hq, hf, heq⟩
  all_goals rw [heq]
  · exact leave_overAdmits_iff_oversteps h c
  · refine overAdmits_iff_oversteps_of_same fun d => ?_
    have hcount := List.perm_cons_erase hg
    simp only [holders]
    grind
  · exact overAdmits_iff_oversteps_of_same fun _ => .rfl
  · -- the only look that grants: `c` is new, and all that held a permit still do
    have hgrants : g.Grants { g with word := g.word.take, running := g.running ++ [c] } :=
      ⟨c, by simp [holders], by simp [holders, hg, hr]⟩
    have hback : ¬ g.GivesBack { g with word := g.word.take, running := g.running ++ [c] } :=
      not_givesBack fun d hd => by simp [holders, hd]
    have hfree : free { g with word := g.word.take, running := g.running ++ [c] } = g.free - 1 :=
      PermitWord.count_take hf
    simp only [overAdmits_iff, Oversteps, TakesFree, hgrants, hback, hfree, false_and, true_and,
      false_or, held, List.length_append, List.length_singleton]
    omega
  · exact overAdmits_iff_oversteps_of_same fun _ => .rfl

theorem finish_not_givesBack (g : Gate) (c : Nat) : ¬ g.GivesBack (g.finish c) := by
  refine not_givesBack fun d hd => ?_
  rcases finish_cases g c with ⟨-, heq⟩ | ⟨-, -, heq⟩ | ⟨-, -, heq⟩
  all_goals rw [heq]
  · exact List.mem_append_left _ hd
  · exact List.mem_append_left _ hd
  · exact (put_holders ..).mpr (.inr (List.mem_append_left _ hd))

theorem finish_not_oversteps {g : Gate} (h : g.Counted) (c : Nat) :
    ¬ g.Oversteps (g.finish c) := by
  have htakes : ¬ g.TakesFree (g.finish c) := by
    rcases finish_cases g c with ⟨-, heq⟩ | ⟨-, -, heq⟩ | ⟨-, -, heq⟩
    all_goals rw [heq]
    · exact fun ht => not_grants_of_subset (fun _ => id) ht.1
    · exact fun ht => not_grants_of_subset (fun _ => mem_holders_of_erase_running) ht.1
    · exact not_takesFree_put h (fun _ => mem_holders_of_erase_running) rfl 1
  rintro (⟨hb, -⟩ | ⟨ht, -⟩)
  · exact finish_not_givesBack g c hb
  · exact htakes ht

/-- Who holds a permit keeps it, whatever the limit becomes. -/
theorem resize_keeps_holders {g : Gate} {n : Nat} (hn : 0 < n) {c : Nat} (hc : c ∈ g.holders) :
    c ∈ (g.resize n).2.holders := by
  rcases resize_cases g hn with ⟨-, heq⟩ | ⟨-, heq⟩ | ⟨-, heq⟩
  all_goals rw [heq]
  · exact hc
  · exact (put_holders ..).mpr (.inr hc)
  · exact hc

theorem resize_not_givesBack {g : Gate} {n : Nat} (hn : 0 < n) :
    ¬ g.GivesBack (g.resize n).2 :=
  not_givesBack fun _ hc => resize_keeps_holders hn (List.mem_append_left _ hc)

theorem resize_not_oversteps {g : Gate} (h : g.Counted) {n : Nat} (hn : 0 < n) :
    ¬ g.Oversteps (g.resize n).2 := by
  have htakes : ¬ g.TakesFree (g.resize n).2 := by
    rcases resize_cases g hn with ⟨-, heq⟩ | ⟨-, heq⟩ | ⟨-, heq⟩
    all_goals rw [heq]
    · exact fun ht => not_grants_of_subset (fun _ => id) ht.1
    · exact not_takesFree_put h (fun _ => id) rfl _
    · exact fun ht => not_grants_of_subset (fun _ => id) ht.1
  rintro (⟨hb, -⟩ | ⟨ht, -⟩)
  · exact resize_not_givesBack hn hb
  · exact htakes ht

theorem Move.overAdmits_iff {g g' : Gate} (m : Move g g') (h : g.Counted) :
    g.OverAdmits g' ↔ g.Oversteps g' := by
  cases m with
  | stay => exact overAdmits_iff_oversteps_of_same fun _ => .rfl
  | look c hc => exact look_overAdmits_iff_oversteps h hc
  | leave c => exact leave_overAdmits_iff_oversteps h c
  | finish c =>
    exact iff_of_false ((finish_counted h c).not_overAdmits finish_debt) (finish_not_oversteps h c)
  | resize n hn =>
    exact iff_of_false ((resize_counted h hn).not_overAdmits (resize_debt hn))
      (resize_not_oversteps h hn)

-- ---------------------------------------------------------------------------
-- Debts that are paid in time
-- ---------------------------------------------------------------------------

/-- No permit is free while one is owed. -/
def Paid (g : Gate) : Prop := g.debt = 0 ∨ g.free = 0

/-- A permit that comes back unused becomes free, as nobody queues, although one is owed. -/
def MissesDebt (g g' : Gate) : Prop := g.GivesBack g' ∧ 0 < g.debt ∧ g.queue = []

theorem not_missesDebt {g g' : Gate} (h : ∀ c ∈ g.granted, c ∈ g'.holders) : ¬ g.MissesDebt g' :=
  fun hmisses => not_givesBack h hmisses.1

theorem leave_paid_iff {g : Gate} (h : g.Counted) (hp : g.Paid) (c : Nat) :
    (g.leave c).Paid ↔ ¬ g.MissesDebt (g.leave c) := by
  by_cases hc : c ∈ g.granted
  · have hback := leave_givesBack h hc
    have hdebt : (g.leave c).debt = g.debt := by
      rw [leave_of_granted hc]
      rfl
    by_cases hd : g.debt = 0
    · refine iff_of_true (.inl (hdebt.trans hd)) ?_
      rintro ⟨-, hpos, -⟩
      omega
    · have hfree : (g.leave c).free = 1 - g.queue.length := by
        rw [leave_of_granted hc]
        exact put_one_free (g := { g with granted := _ }) (hp.resolve_left hd)
      simp only [Paid, MissesDebt, hback, hfree, hdebt, true_and, ← List.length_eq_zero_iff]
      omega
  · rw [leave_of_not_granted hc]
    exact iff_of_true hp (not_missesDebt fun d hd => List.mem_append_left _ hd)

/-- The only move after which a permit is free while one is owed. -/
theorem Move.paid_iff {g g' : Gate} (m : Move g g') (h : g.Counted) (hp : g.Paid) :
    g'.Paid ↔ ¬ g.MissesDebt g' := by
  cases m with
  | stay => exact iff_of_true hp (not_missesDebt fun d hd => List.mem_append_left _ hd)
  | look c hc =>
    rcases look_cases g c with ⟨-, heq⟩ | ⟨hg, heq⟩ | ⟨-, heq⟩ | ⟨-, -, hf, heq⟩ | ⟨-, -, hf, heq⟩
    all_goals rw [heq]
    · exact leave_paid_iff h hp c
    · refine iff_of_true hp (not_missesDebt fun d hd => ?_)
      have hcount := List.perm_cons_erase hg
      simp only [holders]
      grind
    · exact iff_of_true hp (not_missesDebt fun d hd => List.mem_append_left _ hd)
    · refine iff_of_true (.inl (hp.resolve_right (by omega))) (not_missesDebt fun d hd => ?_)
      exact List.mem_append_left _ hd
    · exact iff_of_true hp (not_missesDebt fun d hd => List.mem_append_left _ hd)
  | leave c => exact leave_paid_iff h hp c
  | finish c =>
    refine iff_of_true ?_ fun hmisses => finish_not_givesBack g c hmisses.1
    rcases finish_cases g c with ⟨-, heq⟩ | ⟨-, hd, heq⟩ | ⟨-, hd, heq⟩
    all_goals rw [heq]
    · exact hp
    · exact .inr (hp.resolve_left (by omega))
    · exact .inl hd
  | resize n hn =>
    refine iff_of_true ?_ fun hmisses => resize_not_givesBack hn hmisses.1
    rcases resize_cases g hn with ⟨-, heq⟩ | ⟨-, heq⟩ | ⟨-, heq⟩
    all_goals rw [heq]
    · exact hp
    · -- a debt that is left after a growth takes all of it
      by_cases hd : g.debt - (n - g.limit) = 0
      · exact .inl hd
      · have hnone : n - g.limit - g.debt = 0 := by omega
        refine .inr ?_
        rw [grown, hnone, put_free_of_le (Nat.zero_le _)]
        exact hp.resolve_left (by omega)
    · have hfree := shrunk_free g n
      have hdebt : (g.shrunk n).debt = g.debt + (g.limit - n) - g.free := rfl
      rw [Paid, hfree, hdebt]
      omega

theorem Move.paid {g g' : Gate} (m : Move g g') (h : g.Counted) (hp : g.Paid)
    (hback : g.GivesBack g' → g.debt = 0) : g'.Paid := by
  rw [m.paid_iff h hp]
  rintro ⟨hgives, hdebt, -⟩
  have := hback hgives
  omega

/-- Where debts are paid in time, and a permit comes back unused only when none is owed, nobody
oversteps. -/
theorem Counted.not_oversteps {g g' : Gate} (h : g.Counted) (hp : g.Paid)
    (hback : g.GivesBack g' → g.debt = 0) : ¬ g.Oversteps g' := by
  have hb := h.bounded
  rintro (⟨hg, -, hlt⟩ | ⟨⟨-, hlt⟩, hle⟩)
  · have := h.held_le (hback hg)
    omega
  · have hdebt := hp.resolve_right (by omega)
    omega

end GuardedSearch.Gate
