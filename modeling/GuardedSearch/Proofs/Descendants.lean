import GuardedSearch.Vocabulary
import Mathlib.Logic.Relation

/-!
# What lies below a value

`mem_descendants_iff` says that the descendants of a value are the other values that are
reached from it by way of children. The traversal keeps that the children of every value that
it has listed are listed, wait to be visited or are the value it began at.
-/

namespace GuardedSearch.Vocabulary

variable {v : Vocabulary} {origin value : String} {stack out : List String}

/-- `child` is listed as a child of `parent`. -/
def IsChild (v : Vocabulary) (parent child : String) : Prop := child ∈ v.childrenOf parent

theorem mem_unlisted {c : String} :
    c ∈ v.unlisted origin value out ↔ v.IsChild value c ∧ c ≠ origin ∧ c ∉ out := by
  simp [unlisted, IsChild]

/-- What holds of the values to visit, and of the children of whatever it holds of, holds of
every value that is listed. -/
theorem descend_sound {P : String → Prop}
    (hchild : ∀ parent child, P parent → v.IsChild parent child → child ≠ origin → P child)
    (inside : ∀ c ∈ stack, c ∈ v.listed) (hstack : ∀ c ∈ stack, P c) (hout : ∀ c ∈ out, P c) :
    ∀ c ∈ v.descend origin stack out inside, P c := by
  induction stack, out, inside using descend.induct v origin with
  | case1 out inside _ =>
    rw [descend]
    exact hout
  | case2 out current rest inside _ ih =>
    rw [descend]
    have hcurrent := hstack current List.mem_cons_self
    refine ih (fun c hc => ?_) fun c hc => ?_
    · rcases List.mem_append.mp hc with hc | hc
      · obtain ⟨hc, horigin, -⟩ := mem_unlisted.mp hc
        exact hchild current c hcurrent hc horigin
      · exact hstack c (List.mem_cons_of_mem _ hc)
    · rcases List.mem_append.mp hc with hc | hc
      · exact hout c hc
      · rw [List.mem_singleton.mp hc]
        exact hcurrent

/-- Every child of a listed value is listed, waits to be visited or is the origin. -/
def Pending (v : Vocabulary) (origin : String) (stack out : List String) : Prop :=
  ∀ parent ∈ out, ∀ child, v.IsChild parent child → child ≠ origin → child ∈ out ∨ child ∈ stack

/-- Visiting the next value keeps this. -/
theorem Pending.visit {current : String} (h : v.Pending origin (current :: stack) out) :
    v.Pending origin (v.unlisted origin current out ++ stack) (out ++ [current]) := by
  intro parent hparent child hchild horigin
  rw [List.mem_append, List.mem_append, List.mem_singleton]
  rcases List.mem_append.mp hparent with hparent | hparent
  · rcases h parent hparent child hchild horigin with hout | hstack
    · exact .inl (.inl hout)
    · rcases List.mem_cons.mp hstack with rfl | hstack
      · exact .inl (.inr rfl)
      · exact .inr (.inr hstack)
  · rw [List.mem_singleton.mp hparent] at hchild
    by_cases hout : child ∈ out
    · exact .inl (.inl hout)
    · exact .inr (.inl (mem_unlisted.mpr ⟨hchild, horigin, hout⟩))

/-- In the end all that waited is listed, and so are the children of all that is listed. -/
theorem descend_complete (inside : ∀ c ∈ stack, c ∈ v.listed) (h : v.Pending origin stack out) :
    (∀ c ∈ out, c ∈ v.descend origin stack out inside) ∧
      (∀ c ∈ stack, c ∈ v.descend origin stack out inside) ∧
      v.Pending origin [] (v.descend origin stack out inside) := by
  induction stack, out, inside using descend.induct v origin with
  | case1 out inside _ =>
    rw [descend]
    exact ⟨fun _ hc => hc, fun _ hc => absurd hc List.not_mem_nil, h⟩
  | case2 out current rest inside _ ih =>
    rw [descend]
    obtain ⟨hout, hstack, hend⟩ := ih h.visit
    refine ⟨fun c hc => hout c (List.mem_append_left _ hc), fun c hc => ?_, hend⟩
    rcases List.mem_cons.mp hc with rfl | hc
    · exact hout c (List.mem_append_right _ List.mem_cons_self)
    · exact hstack c (List.mem_append_right _ hc)

/-- The descendants of a value are the others that are reached from it by way of children. -/
theorem mem_descendants_iff {c : String} :
    c ∈ v.descendants value ↔ c ≠ value ∧ Relation.TransGen v.IsChild value c := by
  have inside : ∀ c ∈ v.unlisted value value [], c ∈ v.listed :=
    fun _ hc => mem_listed_of_mem_unlisted hc
  change c ∈ v.descend value (v.unlisted value value []) [] inside ↔ _
  constructor
  · intro hc
    have hbelow : ∀ parent child,
        parent ≠ value ∧ Relation.TransGen v.IsChild value parent → v.IsChild parent child →
          child ≠ value → child ≠ value ∧ Relation.TransGen v.IsChild value child :=
      fun _ _ hparent hchild hvalue => ⟨hvalue, hparent.2.tail hchild⟩
    refine descend_sound hbelow inside (fun d hd => ?_) (by simp) c hc
    obtain ⟨hd, hvalue, -⟩ := mem_unlisted.mp hd
    exact ⟨hvalue, .single hd⟩
  · rintro ⟨hne, hreach⟩
    have hstart : v.Pending value (v.unlisted value value []) [] := by
      intro parent hparent
      cases hparent
    obtain ⟨-, hfirst, hend⟩ := descend_complete inside hstart
    -- the origin may be reached again on the way
    suffices h : c = value ∨ c ∈ v.descend value (v.unlisted value value []) [] inside from
      h.resolve_left hne
    have hchildren (d : String) (hd : v.IsChild value d) :
        d = value ∨ d ∈ v.descend value (v.unlisted value value []) [] inside := by
      by_cases heq : d = value
      · exact .inl heq
      · exact .inr (hfirst d (mem_unlisted.mpr ⟨hd, heq, List.not_mem_nil⟩))
    clear hne
    induction hreach with
    | single hd => exact hchildren _ hd
    | @tail parent d _ hd ih =>
      rcases ih with rfl | hparent
      · exact hchildren d hd
      · by_cases heq : d = value
        · exact .inl heq
        · exact .inr ((hend parent hparent d hd heq).resolve_right List.not_mem_nil)

theorem not_mem_descendants_self (v : Vocabulary) (value : String) :
    value ∉ v.descendants value := fun h => (mem_descendants_iff.mp h).1 rfl

/-- A value with its descendants are the values that are reached from it. -/
theorem mem_cons_descendants_iff {c : String} :
    c ∈ value :: v.descendants value ↔ Relation.ReflTransGen v.IsChild value c := by
  rw [List.mem_cons, mem_descendants_iff, Relation.reflTransGen_iff_eq_or_transGen]
  by_cases h : c = value <;> simp [h]

end GuardedSearch.Vocabulary
