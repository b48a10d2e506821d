import GuardedSearch.Proofs.Repetitions
import Mathlib.Data.List.Induction

/-!
# Parents and children

A vocabulary keeps the parent of each value, and beside it the values that are listed under each
parent. A value that is put under another parent is moved in the one and not in the other: its
parent is the last that it was put under (`parentOf?_grow_iff`), and it stays listed under all of
them (`isChild_grow`). The children of a value stand in the order in which they were first put there
(`childrenOf_grow`). `halves_agree_iff` says when the two halves tell the same, and
`exists_moved_listed` shows a vocabulary where they do not.
-/

namespace GuardedSearch

namespace Vocabulary

open Relation (TransGen)

variable {v start : Vocabulary} {links : List (String × String)} {origin p c : String}

-- ---------------------------------------------------------------------------
-- The way up
-- ---------------------------------------------------------------------------

def parentOf? (v : Vocabulary) (value : String) : Option String := (v.parents.get? value).join

/-- The value that is met after this many steps, each from a value to its parent. -/
def climb (v : Vocabulary) : Nat → String → Option String
  | 0, value => some value
  | steps + 1, value => (v.parentOf? value).bind (v.climb steps)

def IsParent (v : Vocabulary) (parent child : String) : Prop := v.parentOf? child = some parent

/-- What is met on the way up from a value are its parent, the parent of that, and so on. -/
theorem exists_climb_iff :
    (∃ steps, v.climb (steps + 1) c = some origin) ↔ TransGen v.IsParent origin c := by
  constructor
  · rintro ⟨steps, h⟩
    induction steps generalizing c with
    | zero =>
      obtain ⟨parent, hparent, hmet⟩ := Option.bind_eq_some_iff.mp h
      obtain rfl := Option.some.inj hmet
      exact .single hparent
    | succ steps ih =>
      obtain ⟨parent, hparent, hmet⟩ := Option.bind_eq_some_iff.mp h
      exact .tail (ih hmet) hparent
  · intro h
    induction h with
    | single hparent => exact ⟨0, Option.bind_eq_some_iff.mpr ⟨_, hparent, rfl⟩⟩
    | tail _ hparent ih =>
      obtain ⟨steps, hmet⟩ := ih
      exact ⟨steps + 1, Option.bind_eq_some_iff.mpr ⟨_, hparent, hmet⟩⟩

-- ---------------------------------------------------------------------------
-- Growth
-- ---------------------------------------------------------------------------

/-- The empty tree after each child has been put under the parent that stands before it. -/
def grow (links : List (String × String)) : Vocabulary :=
  links.foldl (fun v link => v.addChild link.1 link.2) tree

/-- Puts each child under the parent that stands before it. `grow` is the case of the empty tree. -/
def addChildren (v : Vocabulary) (links : List (String × String)) : Vocabulary :=
  links.foldl (fun v link => v.addChild link.1 link.2) v

/-- The values that are put under a parent, in the order in which they come there first. -/
def putUnder (links : List (String × String)) (parent : String) : List String :=
  ((links.filter fun link => link.1 = parent).map (·.2)).eraseDups

/-- No child is put under two different parents. -/
def Unmoved (links : List (String × String)) : Prop :=
  ∀ link ∈ links, ∀ other ∈ links, link.2 = other.2 → link.1 = other.1

instance (links : List (String × String)) : Decidable (Unmoved links) := by
  unfold Unmoved
  infer_instance

/-- The child is put under this parent, and under no parent after that. -/
def PutLast (links : List (String × String)) (parent child : String) : Prop :=
  ∃ before after, links = before ++ (parent, child) :: after ∧ ∀ link ∈ after, link.2 ≠ child

theorem addChildren_append_singleton (v : Vocabulary) (links : List (String × String))
    (parent child : String) :
    v.addChildren (links ++ [(parent, child)]) = (v.addChildren links).addChild parent child := by
  rw [addChildren, List.foldl_append]
  rfl

theorem grow_append_singleton (links : List (String × String)) (parent child : String) :
    grow (links ++ [(parent, child)]) = (grow links).addChild parent child :=
  addChildren_append_singleton tree links parent child

/-- What holds of every vocabulary that is grown holds of these. -/
theorem grow_grown (links : List (String × String)) : (grow links).Grown := by
  induction links using List.reverseRecOn with
  | nil => exact .tree
  | append_singleton links link ih =>
    rw [grow_append_singleton]
    exact .addChild ih _ _

theorem mem_putUnder : c ∈ putUnder links p ↔ (p, c) ∈ links := by
  simp [putUnder, List.mem_eraseDups]

theorem putUnder_append_singleton (parent child other : String) :
    putUnder (links ++ [(parent, child)]) other =
      if other = parent then
        if child ∈ putUnder links parent then putUnder links parent
        else putUnder links parent ++ [child]
      else putUnder links other := by
  by_cases hparent : parent = other
  · subst hparent
    rw [if_pos rfl]
    by_cases hchild : (parent, child) ∈ links <;>
      simp [putUnder, List.filter_append, List.eraseDups_append, List.eraseDups_cons,
        List.removeAll, hchild]
  · simp [putUnder, List.filter_append, hparent, Ne.symm hparent]

/-- What starts without children has those that are put there, in the order of `putUnder`. -/
theorem childrenOf_addChildren (hstart : ∀ parent, start.childrenOf parent = []) :
    (start.addChildren links).childrenOf = putUnder links := by
  funext other
  induction links using List.reverseRecOn generalizing other with
  | nil => exact hstart other
  | append_singleton links link ih =>
    obtain ⟨parent, child⟩ := link
    rw [addChildren_append_singleton, childrenOf_addChild, putUnder_append_singleton, ih, ih]

theorem isChild_addChildren (hstart : ∀ parent, start.childrenOf parent = []) :
    (start.addChildren links).IsChild p c ↔ (p, c) ∈ links := by
  rw [IsChild, childrenOf_addChildren hstart, mem_putUnder]

theorem childrenOf_grow : (grow links).childrenOf = putUnder links :=
  childrenOf_addChildren fun _ => rfl

theorem nodup_putUnder (links : List (String × String)) (parent : String) :
    (putUnder links parent).Nodup := by
  rw [← childrenOf_grow]
  exact (grow_grown links).nodup_childrenOf parent

/-- A child is listed under every parent that it was put under. -/
theorem isChild_grow : (grow links).IsChild p c ↔ (p, c) ∈ links :=
  isChild_addChildren fun _ => rfl

theorem parentOf?_addChild (v : Vocabulary) (parent child value : String) :
    (v.addChild parent child).parentOf? value =
      if value = child then some parent else v.parentOf? value := by
  rw [parentOf?, addChild, Table.get?_insert]
  split
  · rfl
  · rw [Table.get?_update, parentOf?]
    split
    · next heq =>
      -- a parent that is seen for the first time is a root
      rw [heq]
      cases v.parents.get? parent <;> rfl
    · rfl

theorem PutLast.mem (h : PutLast links p c) : (p, c) ∈ links := by
  obtain ⟨before, after, rfl, -⟩ := h
  exact List.mem_append_right _ List.mem_cons_self

theorem putLast_append_singleton {parent child : String} :
    PutLast (links ++ [(parent, child)]) p c ↔
      if c = child then p = parent else PutLast links p c := by
  constructor
  · rintro ⟨before, after, heq, hafter⟩
    rcases List.eq_nil_or_concat after with rfl | ⟨front, last, rfl⟩
    · obtain ⟨-, hlast⟩ := List.append_inj' heq rfl
      obtain ⟨rfl, rfl⟩ := Prod.mk.inj (List.singleton_inj.mp hlast)
      rw [if_pos rfl]
    · rw [List.concat_eq_append, ← List.cons_append, ← List.append_assoc] at heq
      obtain ⟨hlinks, hlast⟩ := List.append_inj' heq rfl
      obtain rfl := List.singleton_inj.mp hlast
      rw [List.concat_eq_append] at hafter
      have hchild : child ≠ c := hafter _ (List.mem_append_right _ (List.mem_singleton_self _))
      rw [if_neg (Ne.symm hchild)]
      exact ⟨before, front, hlinks, fun link hlink => hafter link (List.mem_append_left _ hlink)⟩
  · split
    · next heq =>
      rintro rfl
      exact ⟨links, [], heq ▸ rfl, fun _ hlink => absurd hlink List.not_mem_nil⟩
    · next hne =>
      rintro ⟨before, after, rfl, hafter⟩
      refine ⟨before, after ++ [(parent, child)], by simp, fun link hlink => ?_⟩
      rcases List.mem_append.mp hlink with hlink | hlink
      · exact hafter link hlink
      · rw [List.mem_singleton.mp hlink]
        exact Ne.symm hne

/-- The parent of a value is the one that it was put under last. -/
theorem parentOf?_grow_iff : (grow links).parentOf? c = some p ↔ PutLast links p c := by
  induction links using List.reverseRecOn with
  | nil =>
    refine iff_of_false (fun h => by cases h) ?_
    exact fun h => List.not_mem_nil h.mem
  | append_singleton links link ih =>
    obtain ⟨parent, child⟩ := link
    rw [grow_append_singleton, parentOf?_addChild, putLast_append_singleton]
    split
    · rw [Option.some_inj, eq_comm]
    · exact ih

theorem exists_putLast (h : (p, c) ∈ links) : ∃ parent, PutLast links parent c := by
  induction links using List.reverseRecOn with
  | nil => cases h
  | append_singleton links link ih =>
    obtain ⟨parent, child⟩ := link
    by_cases heq : c = child
    · exact ⟨parent, putLast_append_singleton.mpr (by rw [if_pos heq])⟩
    · have hlink : (p, c) ∈ links := (List.mem_append.mp h).resolve_right fun hlast =>
        heq (Prod.mk.inj (List.mem_singleton.mp hlast)).2
      obtain ⟨last, hlast⟩ := ih hlink
      exact ⟨last, putLast_append_singleton.mpr (by rwa [if_neg heq])⟩

-- ---------------------------------------------------------------------------
-- The two halves
-- ---------------------------------------------------------------------------

theorem isChild_of_isParent (h : (grow links).IsParent p c) : (grow links).IsChild p c :=
  isChild_grow.mpr (parentOf?_grow_iff.mp h).mem

/-- Where no child is moved, its parent is the only one that it is listed under. -/
theorem Unmoved.isChild_iff (h : Unmoved links) :
    (grow links).IsChild p c ↔ (grow links).IsParent p c := by
  refine ⟨fun hchild => ?_, isChild_of_isParent⟩
  obtain ⟨parent, hlast⟩ := exists_putLast (isChild_grow.mp hchild)
  obtain rfl : parent = p := h _ hlast.mem _ (isChild_grow.mp hchild) rfl
  exact parentOf?_grow_iff.mpr hlast

theorem oneParent_grow_iff : (grow links).OneParent ↔ Unmoved links := by
  constructor
  · intro h link hlink other hother heq
    refine h link.1 other.1 link.2 (isChild_grow.mpr hlink) (isChild_grow.mpr ?_)
    rwa [heq]
  · exact fun h parent other child hparent hother =>
      h _ (isChild_grow.mp hparent) _ (isChild_grow.mp hother) rfl

theorem unmoved_of_isChild_iff
    (h : ∀ p c, (grow links).IsChild p c ↔ (grow links).IsParent p c) : Unmoved links := by
  refine oneParent_grow_iff.mp fun parent other child hparent hother => ?_
  have hfirst : (grow links).parentOf? child = some parent := (h parent child).mp hparent
  have hsecond : (grow links).parentOf? child = some other := (h other child).mp hother
  exact Option.some.inj (hfirst.symm.trans hsecond)

/-- Descendants are what leads up to the origin, if from every other value that it was put under
a child still leads up to there. -/
theorem transGen_isParent_of_isChild
    (h : ∀ link ∈ links, link.1 ≠ link.2 → TransGen (grow links).IsParent link.1 link.2)
    (hreach : TransGen (grow links).IsChild origin c) (hne : c ≠ origin) :
    TransGen (grow links).IsParent origin c := by
  induction hreach with
  | single hchild => exact h _ (isChild_grow.mp hchild) (Ne.symm hne)
  | @tail parent child _ hchild ih =>
    -- a value that was put under itself is no step, and at the origin the way up ends
    by_cases hself : parent = child
    · subst hself
      exact ih hne
    · have hlast := h _ (isChild_grow.mp hchild) hself
      by_cases horigin : parent = origin
      · exact horigin ▸ hlast
      · exact (ih horigin).trans hlast

/-- In a tree that is grown link by link, the children of a value are all that were put under it,
and the parent of a value is the one that it was put under last. So what is met on the way up from
a value has it among its descendants, and the two halves agree just when no child is put under two
parents, which is when no value is listed under two. The descendants of each value are those from
which it is met on the way up just when every parent that a value was put under is still met on the
way up from it. -/
theorem halves_agree_iff (links : List (String × String)) :
    (∀ p c, (grow links).IsChild p c ↔ (p, c) ∈ links) ∧
    (∀ p c, (grow links).parentOf? c = some p ↔ PutLast links p c) ∧
    ((∀ p c, (grow links).IsChild p c ↔ (grow links).parentOf? c = some p) ↔ Unmoved links) ∧
    ((grow links).OneParent ↔ Unmoved links) ∧
    (∀ origin c steps, c ≠ origin → (grow links).climb (steps + 1) c = some origin →
      c ∈ (grow links).descendants origin) ∧
    ((∀ origin c, c ∈ (grow links).descendants origin ↔
        c ≠ origin ∧ ∃ steps, (grow links).climb (steps + 1) c = some origin) ↔
      ∀ link ∈ links, link.1 ≠ link.2 →
        ∃ steps, (grow links).climb (steps + 1) link.2 = some link.1) ∧
    (Unmoved links → ∀ origin c, c ∈ (grow links).descendants origin ↔
      c ≠ origin ∧ ∃ steps, (grow links).climb (steps + 1) c = some origin) := by
  simp only [exists_climb_iff]
  have hbelow (origin c : String) (h : TransGen (grow links).IsParent origin c) :
      TransGen (grow links).IsChild origin c := TransGen.mono (fun _ _ => isChild_of_isParent) _ _ h
  have hmeets (h : ∀ link ∈ links, link.1 ≠ link.2 → TransGen (grow links).IsParent link.1 link.2)
      (origin c : String) : c ∈ (grow links).descendants origin ↔
        c ≠ origin ∧ TransGen (grow links).IsParent origin c := by
    rw [mem_descendants_iff]
    exact and_congr_right fun hne =>
      ⟨fun hreach => transGen_isParent_of_isChild h hreach hne, hbelow origin c⟩
  refine ⟨fun _ _ => isChild_grow, fun _ _ => parentOf?_grow_iff, ?_, oneParent_grow_iff,
    ?_, ?_, ?_⟩
  · exact ⟨unmoved_of_isChild_iff, fun h _ _ => h.isChild_iff⟩
  · exact fun origin c steps hne hmet =>
      mem_descendants_iff.mpr ⟨hne, hbelow origin c (exists_climb_iff.mp ⟨steps, hmet⟩)⟩
  · refine ⟨fun h link hlink hne => ((h link.1 link.2).mp ?_).2, hmeets⟩
    exact mem_descendants_iff.mpr ⟨Ne.symm hne, .single (isChild_grow.mpr hlink)⟩
  · exact fun h => hmeets fun link hlink _ => .single (h.isChild_iff.mp (isChild_grow.mpr hlink))

/-- Cats are moved from the animals to the pets, which are animals, so that a cat still leads up to
the animals. -/
def petLinks : List (String × String) :=
  [("animal", "cat"), ("animal", "pet"), ("pet", "cat"), ("cat", "kitten")]

theorem climb_pets : (grow petLinks).climb 1 "cat" = some "pet" ∧
    (grow petLinks).climb 2 "cat" = some "animal" ∧
    (grow petLinks).climb 3 "kitten" = some "animal" := by
  decide +kernel

/-- The halves differ, and the descendants are right all the same; without the pets both are. -/
theorem halves_agree_iff_pets :
    (¬ ∀ p c, (grow petLinks).IsChild p c ↔ (grow petLinks).parentOf? c = some p) ∧
      (∀ origin c, c ∈ (grow petLinks).descendants origin ↔
        c ≠ origin ∧ ∃ steps, (grow petLinks).climb (steps + 1) c = some origin) ∧
      "kitten" ∈ (grow petLinks).descendants "animal" ∧
      Unmoved [("animal", "cat"), ("cat", "kitten")] ∧
      (∀ origin c, c ∈ (grow [("animal", "cat"), ("cat", "kitten")]).descendants origin ↔
        c ≠ origin ∧ ∃ steps,
          (grow [("animal", "cat"), ("cat", "kitten")]).climb (steps + 1) c = some origin) := by
  obtain ⟨-, -, hagree, -, hmet, hmeets, -⟩ := halves_agree_iff petLinks
  obtain ⟨-, -, -, -, -, -, hunmoved⟩ := halves_agree_iff [("animal", "cat"), ("cat", "kitten")]
  obtain ⟨hpet, hcat, hkitten⟩ := climb_pets
  have hmoved : ¬ Unmoved petLinks := by decide
  refine ⟨mt hagree.mp hmoved, hmeets.mpr ?_, hmet _ _ 2 (by decide) hkitten, by decide,
    hunmoved (by decide)⟩
  simp only [petLinks, List.mem_cons, List.not_mem_nil, or_false, forall_eq_or_imp, forall_eq]
  refine ⟨fun _ => ⟨1, hcat⟩, fun _ => ⟨0, ?_⟩, fun _ => ⟨0, hpet⟩, fun _ => ⟨0, ?_⟩⟩ <;>
    decide +kernel

/-- A value that has been moved stays listed under the parent that it was taken from. -/
theorem exists_moved_listed : ∃ links p c,
    ¬ ((grow links).IsChild p c ↔ (grow links).parentOf? c = some p) ∧
      ¬ (grow links).OneParent ∧
      ¬ (c ∈ (grow links).descendants p ↔
        c ≠ p ∧ ∃ steps, (grow links).climb (steps + 1) c = some p) := by
  have hchild : (grow [("a", "x"), ("b", "x")]).IsChild "a" "x" := isChild_grow.mpr (by decide)
  have hparent : (grow [("a", "x"), ("b", "x")]).parentOf? "x" = some "b" := by decide +kernel
  have hroot : (grow [("a", "x"), ("b", "x")]).parentOf? "b" = none := by decide +kernel
  refine ⟨[("a", "x"), ("b", "x")], "a", "x", fun h => ?_, ?_, fun h => ?_⟩
  · rw [hparent] at h
    exact absurd (h.mp hchild) (by decide)
  · rw [oneParent_grow_iff]
    decide
  · obtain ⟨-, steps, hmet⟩ := h.mp (mem_descendants_iff.mpr ⟨by decide, .single hchild⟩)
    rw [climb, hparent, Option.bind_some] at hmet
    cases steps with
    | zero => exact absurd (Option.some.inj hmet) (by decide)
    | succ steps =>
      rw [climb, hroot] at hmet
      cases hmet

end Vocabulary

end GuardedSearch
