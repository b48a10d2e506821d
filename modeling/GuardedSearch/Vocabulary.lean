import GuardedSearch.Table

/-!
# Vocabularies

A controlled set of values, flat or arranged by parents and children. The two arrangements
are kept apart: a value that is given a new parent stays listed under the old one.
-/

namespace GuardedSearch

structure Vocabulary where
  hierarchical : Bool
  /-- Each value with its parent; a root has none. -/
  parents : Table (Option String)
  /-- Each parent with its children, in the order in which they were added. -/
  children : Table (List String)
deriving DecidableEq

namespace Vocabulary

def flat (values : List String) : Vocabulary :=
  ⟨false, Table.ofList (values.map (·, none)), ∅⟩

/-- No values yet, and room for a tree. -/
def tree : Vocabulary := ⟨true, ∅, ∅⟩

/-- Puts `child` under `parent`. A parent not seen before becomes a root, and a child is
listed once under each parent. -/
def addChild (v : Vocabulary) (parent child : String) : Vocabulary :=
  { v with
    parents := (v.parents.update parent (·.getD none)).insert child (some parent)
    children := v.children.update parent fun listed =>
      let listed := listed.getD []
      if child ∈ listed then listed else listed ++ [child] }

def contains (v : Vocabulary) (value : String) : Bool := v.parents.contains value

def size (v : Vocabulary) : Nat := v.parents.size

def isEmpty (v : Vocabulary) : Bool := v.size == 0

def childrenOf (v : Vocabulary) (value : String) : List String :=
  (v.children.get? value).getD []

def listed (v : Vocabulary) : List String := v.children.values.flatten

theorem mem_listed_of_mem_childrenOf {v : Vocabulary} {value child : String}
    (h : child ∈ v.childrenOf value) : child ∈ v.listed := by
  rw [childrenOf, Table.get?] at h
  rw [listed, Table.values]
  generalize v.children.entries = es at h ⊢
  induction es with
  | nil => simp at h
  | cons e rest ih =>
    rw [List.lookup_cons] at h
    rw [List.map_cons, List.flatten_cons, List.mem_append]
    cases hk : value == e.1 with
    | true => exact .inl (by simpa [hk] using h)
    | false => exact .inr (ih (by simpa [hk] using h))

/-- The children of `value` that a traversal from `origin` has yet to list. -/
def unlisted (v : Vocabulary) (origin value : String) (out : List String) : List String :=
  (v.childrenOf value).filter fun c => c ≠ origin ∧ c ∉ out

theorem mem_listed_of_mem_unlisted {v : Vocabulary} {origin value c : String}
    {out : List String} (h : c ∈ v.unlisted origin value out) : c ∈ v.listed :=
  mem_listed_of_mem_childrenOf (List.mem_filter.1 h).1

/-- How many listed values are missing from `out`. -/
def missing (v : Vocabulary) (out : List String) : Nat :=
  v.listed.countP fun c => c ∉ out

theorem missing_append_of_mem {v : Vocabulary} {out : List String} {c : String} (h : c ∈ out) :
    v.missing (out ++ [c]) = v.missing out := by
  unfold missing
  congr 1
  funext d
  have : d ∈ out ++ [c] ↔ d ∈ out := by
    rw [List.mem_append, List.mem_singleton]
    exact ⟨fun hd => hd.elim id fun hd => hd ▸ h, .inl⟩
  simp only [this]

theorem missing_append_lt {v : Vocabulary} {out : List String} {c : String} (h : c ∉ out)
    (hc : c ∈ v.listed) : v.missing (out ++ [c]) < v.missing out := by
  unfold missing
  generalize v.listed = l at hc
  have mono : ∀ l : List String,
      l.countP (fun d => d ∉ out ++ [c]) ≤ l.countP fun d => d ∉ out := fun l =>
    List.countP_mono_left fun d _ hd => by simp_all
  induction l with
  | nil => simp at hc
  | cons d rest ih =>
    by_cases hd : d = c
    · subst hd
      have := mono rest
      simp only [List.countP_cons, h, List.mem_append, List.mem_singleton, or_true,
        not_true_eq_false, not_false_eq_true, decide_true, decide_false, if_true] at this ⊢
      simp only [Bool.false_eq_true, if_false]
      omega
    · have := ih (by simpa [Ne.symm hd] using hc)
      by_cases hout : d ∈ out <;> simp_all

/-- Whether the next value to visit has been listed before. -/
def nextListed (out : List String) : List String → Nat
  | [] => 0
  | next :: _ => if next ∈ out then 1 else 0

/-- Lists the values of `stack` and what lies below them, first to last. A value that is
reached again is listed again, but its children only while they are not listed. -/
def descend (v : Vocabulary) (origin : String) (stack out : List String)
    (inside : ∀ c ∈ stack, c ∈ v.listed) : List String :=
  match stack, inside with
  | [], _ => out
  | current :: rest, inside =>
    v.descend origin (v.unlisted origin current out ++ rest) (out ++ [current]) fun c hc =>
      (List.mem_append.1 hc).elim mem_listed_of_mem_unlisted
        fun hc => inside c (List.mem_cons_of_mem _ hc)
termination_by (v.missing out, nextListed out stack, stack.length)
decreasing_by
  by_cases hseen : current ∈ out
  · rw [missing_append_of_mem hseen]
    apply Prod.Lex.right
    cases hfresh : v.unlisted origin current out with
    | nil =>
      have hle : nextListed (out ++ [current]) rest ≤ 1 := by
        cases rest with
        | nil => simp [nextListed]
        | cons => simp only [nextListed]; split <;> omega
      have hone : nextListed out (current :: rest) = 1 := by simp [nextListed, hseen]
      rw [hone]
      rcases Nat.lt_or_eq_of_le hle with h | h
      · exact Prod.Lex.left _ _ h
      · rw [List.nil_append, h]
        exact Prod.Lex.right _ (Nat.lt_succ_self _)
    | cons next others =>
      apply Prod.Lex.left
      have hmem : next ∈ v.unlisted origin current out := hfresh ▸ List.mem_cons_self ..
      have hout : next ∉ out := by
        have := (List.mem_filter.1 hmem).2
        simp only [decide_eq_true_eq] at this
        exact this.2
      have hne : next ≠ current := fun h => hout (h ▸ hseen)
      simp [nextListed, hseen, hout, hne]
  · exact Prod.Lex.left _ _ (missing_append_lt hseen (inside current (List.mem_cons_self ..)))

/-- The values below `value`, depth first, without `value` itself. -/
def descendants (v : Vocabulary) (value : String) : List String :=
  v.descend value (v.unlisted value value []) [] fun _ => mem_listed_of_mem_unlisted

end Vocabulary

end GuardedSearch
