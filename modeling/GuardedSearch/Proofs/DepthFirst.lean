import GuardedSearch.Proofs.Parents

/-!
# The order of descendants

A traversal goes by a stack of the values to visit, and the order of a tree is told by recursion:
the children of a value in turn, each followed by what comes below it (`PreOrder`). Where no child
is put under two parents the two are the same (`descendants_depth_first`). All values that are
listed or wait are then different, as each was put on the stack by its one parent (`PutOnce`). So a
value that is taken puts all its children before what waits, and none of them has been listed.
-/

namespace GuardedSearch

namespace Vocabulary

open Relation (TransGen)

variable {v start : Vocabulary} {links : List (String × String)} {children : String → List String}
  {origin value current c : String} {stack rest out : List String}

-- ---------------------------------------------------------------------------
-- The order, by recursion
-- ---------------------------------------------------------------------------

/-- `PreOrder children origin value out` says that `out` is what comes below `value`, depth first:
its children in turn, each followed by what comes below it. The origin is left out wherever it is
met. -/
inductive PreOrder (children : String → List String) (origin : String) :
    String → List String → Prop where
  | children {value : String} (below : String → List String)
      (h : ∀ c ∈ children value, c ≠ origin → PreOrder children origin c (below c)) :
      PreOrder children origin value
        (((children value).filter (· ≠ origin)).flatMap fun c => c :: below c)

/-- A value has one such order at most. It has none if a cycle without the origin lies below it. -/
theorem PreOrder.unique {other : List String} (h : PreOrder children origin value out)
    (hother : PreOrder children origin value other) : out = other := by
  induction h generalizing other with
  | children below _ ih =>
    obtain ⟨below', h'⟩ := hother
    refine List.flatMap_congr fun c hc => ?_
    obtain ⟨hchild, hne⟩ := List.mem_filter.mp hc
    rw [decide_eq_true_eq] at hne
    rw [ih c hchild hne (h' c hchild hne)]

/-- An origin that is not met makes no difference. -/
theorem PreOrder.of_not_met {other : String} (h : PreOrder v.childrenOf origin value out)
    (hmet : ∀ c, TransGen v.IsChild value c → c ≠ origin ∧ c ≠ other) :
    PreOrder v.childrenOf other value out := by
  induction h with
  | @children value below _ ih =>
    have hsame : (v.childrenOf value).filter (· ≠ origin) =
        (v.childrenOf value).filter (· ≠ other) :=
      List.filter_congr fun c hc => by simp [hmet c (.single hc)]
    rw [hsame]
    refine .children below fun c hc _ => ih c hc (hmet c (.single hc)).1 fun d hd => ?_
    exact hmet d (.head hc hd)

-- ---------------------------------------------------------------------------
-- The stack of a traversal
-- ---------------------------------------------------------------------------

/-- The values that are listed or wait are all different, and the origin is not among them. Each was
put on the stack as a child of the origin or of a value that is listed. -/
structure PutOnce (v : Vocabulary) (origin : String) (stack out : List String) : Prop where
  nodup : (out ++ stack).Nodup
  ne_origin : ∀ c ∈ out ++ stack, c ≠ origin
  parent : ∀ c ∈ out ++ stack, ∃ p ∈ origin :: out, v.IsChild p c

/-- At the start the children of the origin wait. -/
theorem putOnce_start (hnodup : (v.childrenOf origin).Nodup) :
    v.PutOnce origin (v.unlisted origin origin []) [] where
  nodup := hnodup.filter _
  ne_origin := fun _ hc => (mem_unlisted.mp hc).2.1
  parent := fun _ hc => ⟨origin, List.mem_cons_self, (mem_unlisted.mp hc).1⟩

/-- The next value is the one parent of its children, so none of them has been on the stack. -/
theorem PutOnce.not_mem_of_isChild (h : v.PutOnce origin (current :: rest) out)
    (hone : v.OneParent) (hchild : v.IsChild current c) : c ∉ out ++ current :: rest := by
  intro hmem
  obtain ⟨parent, hparent, hput⟩ := h.parent c hmem
  obtain rfl := hone _ _ _ hput hchild
  rcases List.mem_cons.mp hparent with rfl | hlisted
  · exact h.ne_origin parent (by simp) rfl
  · exact List.disjoint_of_nodup_append h.nodup hlisted List.mem_cons_self

/-- The check for repetitions holds none of the children back. -/
theorem PutOnce.unlisted_eq (h : v.PutOnce origin (current :: rest) out) (hone : v.OneParent) :
    v.unlisted origin current out = (v.childrenOf current).filter (· ≠ origin) := by
  refine List.filter_congr fun c hc => ?_
  have hfresh : c ∉ out := fun hout =>
    h.not_mem_of_isChild hone hc (List.mem_append_left _ hout)
  simp [hfresh]

/-- Visiting the next value keeps this. -/
theorem PutOnce.visit (h : v.PutOnce origin (current :: rest) out) (hone : v.OneParent)
    (hnodup : (v.childrenOf current).Nodup) :
    v.PutOnce origin (v.unlisted origin current out ++ rest) (out ++ [current]) := by
  have hperm : (out ++ [current] ++ (v.unlisted origin current out ++ rest)).Perm
      (v.unlisted origin current out ++ (out ++ current :: rest)) := by
    rw [List.append_cons out current rest]
    exact List.perm_append_comm_assoc _ _ _
  have hmem (c : String) (hc : c ∈ out ++ [current] ++ (v.unlisted origin current out ++ rest)) :
      v.IsChild current c ∧ c ≠ origin ∨ c ∈ out ++ current :: rest :=
    (List.mem_append.mp (hperm.mem_iff.mp hc)).imp_left fun hput =>
      ⟨(mem_unlisted.mp hput).1, (mem_unlisted.mp hput).2.1⟩
  refine ⟨hperm.nodup_iff.mpr ?_, fun c hc => ?_, fun c hc => ?_⟩
  · refine (hnodup.filter _).append h.nodup fun c hput hbefore => ?_
    exact h.not_mem_of_isChild hone (mem_unlisted.mp hput).1 hbefore
  · exact (hmem c hc).elim And.right (h.ne_origin c)
  · rcases hmem c hc with ⟨hchild, -⟩ | hbefore
    · exact ⟨current, by simp, hchild⟩
    · obtain ⟨parent, hparent, hchild⟩ := h.parent c hbefore
      exact ⟨parent, List.mem_append_left [current] hparent, hchild⟩

/-- To say what comes below one value changes nothing for the values after it. -/
theorem flatMap_update {below : String → List String} {more : List String} (h : current ∉ rest) :
    ((current :: rest).flatMap fun c => c :: Function.update below current more c) =
      current :: more ++ rest.flatMap fun c => c :: below c := by
  have hrest : (rest.flatMap fun c => c :: Function.update below current more c) =
      rest.flatMap fun c => c :: below c :=
    List.flatMap_congr fun c hc => by rw [Function.update_of_ne (ne_of_mem_of_not_mem hc h)]
  rw [List.flatMap_cons, Function.update_self, hrest]

/-- What is still to be listed are the values that wait, each followed by what comes below it. -/
theorem PutOnce.exists_descend_eq (h : v.PutOnce origin stack out) (hone : v.OneParent)
    (hnodup : ∀ parent, (v.childrenOf parent).Nodup) (inside : ∀ c ∈ stack, c ∈ v.listed) :
    ∃ below : String → List String, (∀ c ∈ stack, PreOrder v.childrenOf origin c (below c)) ∧
      v.descend origin stack out inside = out ++ stack.flatMap fun c => c :: below c := by
  induction stack, out, inside using descend.induct v origin with
  | case1 out inside _ =>
    rw [descend]
    exact ⟨fun _ => [], fun _ hc => absurd hc List.not_mem_nil, (List.append_nil out).symm⟩
  | case2 out current rest inside _ ih =>
    obtain ⟨below, hbelow, hlater⟩ := ih (h.visit hone (hnodup current))
    have hrest : current ∉ rest := (List.nodup_cons.mp (List.nodup_append.mp h.nodup).2.1).1
    -- the children of the value that is taken are next, and what comes below it is made of them
    have hcurrent : PreOrder v.childrenOf origin current
        ((v.unlisted origin current out).flatMap fun c => c :: below c) := by
      rw [h.unlisted_eq hone] at hbelow ⊢
      refine .children below fun c hc hne => hbelow c ?_
      exact List.mem_append_left _ (List.mem_filter.mpr ⟨hc, decide_eq_true hne⟩)
    refine ⟨Function.update below current
      ((v.unlisted origin current out).flatMap fun c => c :: below c), fun c hc => ?_, ?_⟩
    · rcases List.mem_cons.mp hc with rfl | hc
      · rw [Function.update_self]
        exact hcurrent
      · rw [Function.update_of_ne (ne_of_mem_of_not_mem hc hrest)]
        exact hbelow c (List.mem_append_right _ hc)
    · rw [descend, hlater, flatMap_update hrest, List.flatMap_append, List.append_assoc,
        List.singleton_append, List.cons_append]

/-- Where no value has two parents, the descendants of a value are what comes below it. -/
theorem OneParent.descendants_preOrder (hone : v.OneParent)
    (hnodup : ∀ parent, (v.childrenOf parent).Nodup) (origin : String) :
    PreOrder v.childrenOf origin origin (v.descendants origin) := by
  obtain ⟨below, hbelow, hlisted⟩ := (putOnce_start (hnodup origin)).exists_descend_eq hone hnodup
    fun _ => mem_listed_of_mem_unlisted
  have hfirst : v.unlisted origin origin [] = (v.childrenOf origin).filter (· ≠ origin) :=
    List.filter_congr fun c _ => by simp
  rw [descendants, hlisted, List.nil_append, hfirst]
  refine .children below fun c hc hne => hbelow c ?_
  exact mem_unlisted.mpr ⟨hc, hne, List.not_mem_nil⟩

/-- Where a value is on no cycle, none of its children is. -/
theorem OneParent.not_reached_self (hone : v.OneParent)
    (hcycle : ¬ TransGen v.IsChild origin origin) (hchild : v.IsChild origin c) :
    ¬ TransGen v.IsChild c c := by
  intro hself
  obtain ⟨parent, hback, hput⟩ := TransGen.tail'_iff.mp hself
  obtain rfl := hone _ _ _ hput hchild
  exact hcycle (.head' hchild hback)

/-- What comes below a child are its own descendants, if the value is on no cycle. -/
theorem OneParent.descendants_eq_flatMap (hone : v.OneParent)
    (hnodup : ∀ parent, (v.childrenOf parent).Nodup)
    (hcycle : ¬ TransGen v.IsChild origin origin) :
    v.descendants origin = (v.childrenOf origin).flatMap fun c => c :: v.descendants c := by
  have hbelow : PreOrder v.childrenOf origin origin
      (((v.childrenOf origin).filter (· ≠ origin)).flatMap fun c => c :: v.descendants c) :=
    .children v.descendants fun c hc _ =>
      (hone.descendants_preOrder hnodup c).of_not_met fun d hd => by
        refine ⟨?_, ?_⟩
        · rintro rfl
          exact hone.not_reached_self hcycle hc hd
        · rintro rfl
          exact hcycle (.head hc hd)
  have hall : (v.childrenOf origin).filter (· ≠ origin) = v.childrenOf origin := by
    refine List.filter_eq_self.mpr fun c hc => decide_eq_true ?_
    rintro rfl
    exact hcycle (.single hc)
  rw [hall] at hbelow
  exact (hone.descendants_preOrder hnodup origin).unique hbelow

-- ---------------------------------------------------------------------------
-- Links without a second parent
-- ---------------------------------------------------------------------------

/-- A vocabulary that starts without children, flat or as an empty tree, and gets them link by link,
none under two different parents, lists the descendants of a value depth first: its children in the
order in which they were first put there, each followed by what comes below it, and the value itself
is left out wherever it is met again. If no links lead back to the value, what comes below a child
are the descendants of the child. -/
theorem descendants_depth_first (hstart : ∀ parent, start.childrenOf parent = [])
    (hlinks : Unmoved links) (origin : String) :
    (∀ out, PreOrder (putUnder links) origin origin out ↔
      out = (start.addChildren links).descendants origin) ∧
    (¬ TransGen (fun parent child => (parent, child) ∈ links) origin origin →
      (start.addChildren links).descendants origin =
        (putUnder links origin).flatMap fun c => c :: (start.addChildren links).descendants c) := by
  have hone : (start.addChildren links).OneParent := by
    intro parent other child hparent hother
    rw [isChild_addChildren hstart] at hparent hother
    exact hlinks _ hparent _ hother rfl
  have hnodup (parent : String) : ((start.addChildren links).childrenOf parent).Nodup := by
    rw [childrenOf_addChildren hstart]
    exact nodup_putUnder links parent
  have hlisted := hone.descendants_preOrder hnodup origin
  rw [← childrenOf_addChildren hstart]
  refine ⟨fun out => ⟨fun h => h.unique hlisted, fun h => h ▸ hlisted⟩, fun hcycle => ?_⟩
  exact hone.descendants_eq_flatMap hnodup
    (mt (TransGen.mono (fun _ _ => (isChild_addChildren hstart).mp) _ _) hcycle)

/-- Spring and summer lie under each other. March is put under spring twice. -/
def seasonLinks : List (String × String) :=
  [("spring", "march"), ("spring", "summer"), ("march", "equinox"), ("summer", "july"),
    ("summer", "spring"), ("spring", "march")]

theorem descendants_seasons : ((flat ["july"]).addChildren seasonLinks).descendants "spring" =
    ["march", "equinox", "summer", "july"] := by
  have hchildren : ((flat ["july"]).addChildren seasonLinks).childrenOf = putUnder seasonLinks :=
    childrenOf_addChildren fun _ => rfl
  have hspring : putUnder seasonLinks "spring" = ["march", "summer"] := by decide +kernel
  have hmarch : putUnder seasonLinks "march" = ["equinox"] := by decide +kernel
  have hsummer : putUnder seasonLinks "summer" = ["july", "spring"] := by decide +kernel
  have hequinox : putUnder seasonLinks "equinox" = [] := by decide +kernel
  have hjuly : putUnder seasonLinks "july" = [] := by decide +kernel
  simp [descendants, unlisted, descend, hchildren, hspring, hmarch, hsummer, hequinox, hjuly]

theorem not_reached_march :
    ¬ TransGen (fun parent child => (parent, child) ∈ seasonLinks) "march" "march" := by
  have hbelow (c : String)
      (h : TransGen (fun parent child => (parent, child) ∈ seasonLinks) "march" c) :
      c = "equinox" := by
    induction h with
    | single hlink => simpa [seasonLinks] using hlink
    | tail _ hlink ih => simp [ih, seasonLinks] at hlink
  exact fun h => absurd (hbelow _ h) (by decide)

theorem descendants_depth_first_seasons :
    (∀ parent, (flat ["july"]).childrenOf parent = []) ∧ Unmoved seasonLinks ∧
      PreOrder (putUnder seasonLinks) "spring" "spring" ["march", "equinox", "summer", "july"] ∧
      ((flat ["july"]).addChildren seasonLinks).descendants "march" =
        (putUnder seasonLinks "march").flatMap fun c =>
          c :: ((flat ["july"]).addChildren seasonLinks).descendants c := by
  have hstart (parent : String) : (flat ["july"]).childrenOf parent = [] := rfl
  have hlinks : Unmoved seasonLinks := by decide
  obtain ⟨hspring, -⟩ := descendants_depth_first hstart hlinks "spring"
  obtain ⟨-, hmarch⟩ := descendants_depth_first hstart hlinks "march"
  exact ⟨hstart, hlinks, (hspring _).mpr descendants_seasons.symm, hmarch not_reached_march⟩

end Vocabulary

end GuardedSearch
