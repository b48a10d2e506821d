import GuardedSearch.Translation
import GuardedSearch.Proofs.Descendants
import GuardedSearch.Proofs.Outcomes
import Mathlib.Data.List.Nodup

/-!
# Values that are listed twice

A traversal asks whether a child has been listed when it puts it on the stack, and not when it
takes it from there. So a value is listed as often as it is put on the stack before its first
visit: once for every place under a value that comes up to then (`count_descendants`).
`nodup_descendants_iff` draws from this when the descendants of a value are all different, and
`exists_listed_twice` shows a vocabulary where they are not.
-/

namespace GuardedSearch

namespace Vocabulary

variable {v : Vocabulary} {origin c : String} {stack out : List String}

-- ---------------------------------------------------------------------------
-- Places under values
-- ---------------------------------------------------------------------------

/-- The front of a list up to the first place of a value, with the value. -/
def frontTo (c : String) (values : List String) : List String := values.take (values.idxOf c + 1)

theorem frontTo_cons_self (c : String) (values : List String) : frontTo c (c :: values) = [c] := by
  simp [frontTo]

theorem frontTo_cons_of_ne {d : String} (h : d ≠ c) (values : List String) :
    frontTo c (d :: values) = d :: frontTo c values := by
  rw [frontTo, List.idxOf_cons_ne _ h, List.take_succ_cons, frontTo]

theorem frontTo_sublist (c : String) (values : List String) : (frontTo c values).Sublist values :=
  List.take_sublist _ _

/-- How many places a value has among the children of these parents. -/
def placesUnder (v : Vocabulary) (parents : List String) (c : String) : Nat :=
  (parents.flatMap v.childrenOf).count c

theorem placesUnder_cons (parent : String) (parents : List String) :
    v.placesUnder (parent :: parents) c =
      (v.childrenOf parent).count c + v.placesUnder parents c := by
  rw [placesUnder, List.flatMap_cons, List.count_append, placesUnder]

theorem count_unlisted (hc : c ≠ origin) (parent : String) :
    (v.unlisted origin parent out).count c =
      if c ∈ out then 0 else (v.childrenOf parent).count c := by
  rw [unlisted]
  split
  · next hout => exact List.count_eq_zero_of_not_mem fun hmem => by simp_all
  · next hout => exact List.count_filter (by simp [hc, hout])

-- ---------------------------------------------------------------------------
-- Counts
-- ---------------------------------------------------------------------------

/-- A value that has been listed is put on the stack no more. Until then it is put there for each
place under a value that is visited. -/
theorem exists_descend_eq (hc : c ≠ origin) (inside : ∀ d ∈ stack, d ∈ v.listed) :
    ∃ later, v.descend origin stack out inside = out ++ later ∧
      later.count c = stack.count c + if c ∈ out then 0 else v.placesUnder (frontTo c later) c := by
  induction stack, out, inside using descend.induct v origin with
  | case1 out inside _ =>
    rw [descend]
    exact ⟨[], (List.append_nil out).symm, by simp [frontTo, placesUnder]⟩
  | case2 out current rest inside _ ih =>
    obtain ⟨later, hlater, hcount⟩ := ih
    rw [List.count_append, count_unlisted hc] at hcount
    refine ⟨current :: later, ?_, ?_⟩
    · rw [descend, hlater, List.append_assoc, List.singleton_append]
    · rw [List.count_cons, List.count_cons, hcount]
      by_cases hcurrent : current = c
      · -- its first visit, or one after that; either way it is listed from now on
        subst hcurrent
        rw [frontTo_cons_self, placesUnder_cons]
        by_cases hout : current ∈ out <;> simp [hout, placesUnder]
        omega
      · rw [frontTo_cons_of_ne hcurrent, placesUnder_cons]
        have hkept : c ∈ out ++ [current] ↔ c ∈ out := by simp [Ne.symm hcurrent]
        by_cases hout : c ∈ out <;> simp [hkept, hout, hcurrent]
        omega

/-- The values that come up to the first place of `c` among the descendants of the origin: the
origin, those listed before it and `c` itself. -/
def upTo (v : Vocabulary) (origin c : String) : List String :=
  origin :: frontTo c (v.descendants origin)

/-- A value is listed once for every place under a value that comes up to its first. -/
theorem count_descendants (hc : c ≠ origin) :
    (v.descendants origin).count c = v.placesUnder (v.upTo origin c) c := by
  have inside : ∀ d ∈ v.unlisted origin origin [], d ∈ v.listed :=
    fun _ hd => mem_listed_of_mem_unlisted hd
  obtain ⟨later, hlater, hcount⟩ := @exists_descend_eq v origin c _ [] hc inside
  rw [List.nil_append] at hlater
  have hdescendants : v.descendants origin = later := hlater
  rw [count_unlisted hc] at hcount
  rw [upTo, placesUnder_cons, hdescendants, hcount]
  simp

-- ---------------------------------------------------------------------------
-- Vocabularies that are built child by child
-- ---------------------------------------------------------------------------

/-- The vocabularies that a flat or empty one grows to as children are added. -/
inductive Grown : Vocabulary → Prop where
  | tree : Grown tree
  | flat (values : List String) : Grown (flat values)
  | addChild {v : Vocabulary} (h : Grown v) (parent child : String) : Grown (v.addChild parent child)

theorem childrenOf_addChild (parent child other : String) :
    (v.addChild parent child).childrenOf other =
      if other = parent then
        if child ∈ v.childrenOf parent then v.childrenOf parent
        else v.childrenOf parent ++ [child]
      else v.childrenOf other := by
  rw [childrenOf, addChild, Table.get?_update]
  split <;> rfl

theorem isChild_addChild {parent child p : String} :
    (v.addChild parent child).IsChild p c ↔ p = parent ∧ c = child ∨ v.IsChild p c := by
  rw [IsChild, childrenOf_addChild, IsChild]
  by_cases hp : p = parent
  · subst hp
    rw [if_pos rfl]
    by_cases hchild : child ∈ v.childrenOf p
    · rw [if_pos hchild]
      exact ⟨.inr, fun h => h.elim (fun hnew => hnew.2 ▸ hchild) id⟩
    · rw [if_neg hchild, List.mem_append, List.mem_singleton, or_comm]
      simp
  · simp [hp]

theorem not_isChild_tree (parent child : String) : ¬ tree.IsChild parent child :=
  List.not_mem_nil

/-- A child is listed once under each parent. -/
theorem Grown.nodup_childrenOf (h : v.Grown) (parent : String) : (v.childrenOf parent).Nodup := by
  induction h with
  | tree => exact List.nodup_nil
  | flat => exact List.nodup_nil
  | @addChild w _ grown child ih =>
    rw [childrenOf_addChild]
    split
    · next heq =>
      subst heq
      split
      · exact ih
      · next hchild =>
        rw [← List.concat_eq_append]
        exact ih.concat hchild
    · exact ih

theorem Grown.placesUnder_eq (h : v.Grown) (parents : List String) (c : String) :
    v.placesUnder parents c = parents.countP fun parent => c ∈ v.childrenOf parent := by
  induction parents with
  | nil => rfl
  | cons parent rest ih =>
    rw [placesUnder_cons, ih, (h.nodup_childrenOf parent).count, List.countP_cons, Nat.add_comm]
    simp

theorem Grown.count_descendants_eq (h : v.Grown) (hc : c ∈ v.descendants origin) :
    (v.descendants origin).count c =
      (v.upTo origin c).countP fun parent => c ∈ v.childrenOf parent := by
  rw [count_descendants (mem_descendants_iff.mp hc).1, h.placesUnder_eq]

-- ---------------------------------------------------------------------------
-- Trees
-- ---------------------------------------------------------------------------

/-- No value is listed under two parents. -/
def OneParent (v : Vocabulary) : Prop :=
  ∀ parent other child, v.IsChild parent child → v.IsChild other child → parent = other

/-- A value whose only parent is the value itself is reached from no other. -/
theorem OneParent.eq_of_isChild_self (h : v.OneParent)
    (hreach : Relation.TransGen v.IsChild origin c) (hself : v.IsChild c c) : c = origin := by
  induction hreach with
  | single hchild => exact h _ _ _ hself hchild
  | tail _ hchild ih =>
    obtain rfl := h _ _ _ hchild hself
    exact ih hself

/-- Among any values, those that have a child are its one parent. -/
theorem OneParent.countP_le_count {parent : String} (h : v.OneParent) (hchild : v.IsChild parent c)
    (values : List String) : (values.countP fun p => c ∈ v.childrenOf p) ≤ values.count parent := by
  refine List.countP_mono_left fun p _ hp => ?_
  rw [decide_eq_true_eq] at hp
  rw [beq_iff_eq]
  exact h p parent c hp hchild

theorem idxOf_lt_of_mem_frontTo {p : String} {values : List String} (h : p ∈ frontTo c values)
    (hne : p ≠ c) : values.idxOf p < values.idxOf c := by
  have hp : p ∈ values := (frontTo_sublist c values).mem h
  have hle := (List.mem_take_iff_idxOf_lt hp).mp h
  have hother : values.idxOf p ≠ values.idxOf c := fun heq => hne ((List.idxOf_inj hp).mp heq)
  omega

/-- Where no value has two parents, each is listed once: its parent is, and comes before it. -/
theorem Grown.count_eq_one (h : v.Grown) (hone : v.OneParent) (hc : c ∈ v.descendants origin) :
    (v.descendants origin).count c = 1 := by
  induction hn : (v.descendants origin).idxOf c using Nat.strongRecOn generalizing c with
  | ind n ih =>
    obtain ⟨hne, hreach⟩ := mem_descendants_iff.mp hc
    have hpos := List.count_pos_iff.mpr hc
    have hcount := h.count_descendants_eq hc
    obtain ⟨parent, hparent, hchild⟩ := List.countP_pos_iff.mp (hcount ▸ hpos)
    rw [decide_eq_true_eq] at hchild
    have hsame := hone.countP_le_count hchild (v.upTo origin c)
    have hfront := (frontTo_sublist c (v.descendants origin)).count_le parent
    suffices hleast : (v.upTo origin c).count parent ≤ 1 by omega
    rw [upTo, List.count_cons]
    by_cases hfirst : origin = parent
    · rw [← hfirst, List.count_eq_zero_of_not_mem (v.not_mem_descendants_self origin)] at hfront
      rw [← hfirst, if_pos (beq_self_eq_true origin)]
      omega
    · have hlisted : parent ∈ frontTo c (v.descendants origin) :=
        (List.mem_cons.mp hparent).resolve_left (Ne.symm hfirst)
      have hother : parent ≠ c := by
        rintro rfl
        exact hne (hone.eq_of_isChild_self hreach hchild)
      have hlt := idxOf_lt_of_mem_frontTo hlisted hother
      rw [ih _ (hn ▸ hlt) ((frontTo_sublist c _).mem hlisted) rfl] at hfront
      rw [if_neg (by simpa using hfirst)]
      exact hfront

-- ---------------------------------------------------------------------------
-- Expansions
-- ---------------------------------------------------------------------------

/-- A value and its descendants make a clause each, so clauses repeat where descendants do. -/
theorem nodup_clauses_iff {field : String} {clauses : List NativeQuery}
    (h : NativeQuery.disj ((origin :: v.descendants origin).map (.term field)) =
      .bool [] clauses []) : clauses.Nodup ↔ (v.descendants origin).Nodup := by
  have hinjective : Function.Injective (NativeQuery.term field) := fun _ _ heq =>
    (NativeQuery.term.inj heq).2
  have hclauses : (origin :: v.descendants origin).map (.term field) = clauses := by
    cases hbelow : v.descendants origin with
    | nil =>
      rw [hbelow] at h
      cases h
    | cons first rest =>
      rw [hbelow] at h
      exact (NativeQuery.bool.inj h).2.1
  rw [← hclauses, List.nodup_map_iff hinjective, List.nodup_cons]
  exact and_iff_right (v.not_mem_descendants_self origin)

theorem nodup_typeClauses_iff {schema : Schema} {clauses : List NativeQuery}
    (h : Query.nativeResourceType schema origin .isA = .ok (.bool [] clauses [])) :
    clauses.Nodup ↔ (schema.typeTree.descendants origin).Nodup := by
  simp only [Query.nativeResourceType] at h
  split at h
  · exact nodup_clauses_iff (Except.ok.inj h)
  · cases h

/-- The term of a text literal is the literal itself. -/
theorem eq_of_mapM_literalTerm {schema : Schema} {field : String}
    (htext : schema.typeOf field = .text) {values terms : List String}
    (h : values.mapM (Query.literalTerm schema field) = .ok terms) : terms = values := by
  have hterm : Query.literalTerm schema field = .ok := by
    funext raw
    rw [Query.literalTerm, htext]
    rfl
  rw [hterm, Outcome.mapM_ok] at h
  exact (List.map_injective_iff.mpr (fun _ _ => Except.ok.inj) h).symm

theorem nodup_memberClauses_iff {schema : Schema} {field : String} {clauses : List NativeQuery}
    (hv : schema.vocabulary? field = some v) (htext : schema.typeOf field = .text)
    (h : Query.nativeMembership schema field .within origin = .ok (.bool [] clauses [])) :
    clauses.Nodup ↔ (v.descendants origin).Nodup := by
  simp only [Query.nativeMembership, hv] at h
  split at h
  · cases h
  · next w hw =>
    obtain rfl := Option.some.inj (Option.filter_eq_some_iff.mp hw).1
    simp only [Outcome.bind_ok, Outcome.pure_ok] at h
    obtain ⟨terms, hterms, hclauses⟩ := h
    rw [eq_of_mapM_literalTerm htext hterms] at hclauses
    exact nodup_clauses_iff hclauses

-- ---------------------------------------------------------------------------
-- The condition
-- ---------------------------------------------------------------------------

/-- In a vocabulary that is built child by child, a descendant is listed once for every time that
a value which has it as a child comes up to its first place. So the descendants of a value are all
different just when this is once for each of them, as it is in a tree; and so are the clauses of a
query for the resources of a type, or for those with a text field within the value. -/
theorem nodup_descendants_iff (h : v.Grown) (origin : String) :
    (∀ c ∈ v.descendants origin, (v.descendants origin).count c =
      (v.upTo origin c).countP fun parent => c ∈ v.childrenOf parent) ∧
    ((v.descendants origin).Nodup ↔ ∀ c ∈ v.descendants origin,
      ((v.upTo origin c).countP fun parent => c ∈ v.childrenOf parent) = 1) ∧
    (v.OneParent → (v.descendants origin).Nodup) ∧
    (∀ (schema : Schema) (clauses : List NativeQuery), schema.typeTree = v →
      Query.nativeResourceType schema origin .isA = .ok (.bool [] clauses []) →
      (clauses.Nodup ↔ (v.descendants origin).Nodup)) ∧
    ∀ (schema : Schema) (field : String) (clauses : List NativeQuery),
      schema.vocabulary? field = some v → schema.typeOf field = .text →
      Query.nativeMembership schema field .within origin = .ok (.bool [] clauses []) →
      (clauses.Nodup ↔ (v.descendants origin).Nodup) := by
  have hcount : ∀ c ∈ v.descendants origin, (v.descendants origin).count c =
      (v.upTo origin c).countP fun parent => c ∈ v.childrenOf parent :=
    fun _ hc => h.count_descendants_eq hc
  refine ⟨hcount, ?_, ?_, ?_, fun _ _ _ hv htext hnative => nodup_memberClauses_iff hv htext hnative⟩
  · rw [List.nodup_iff_count_eq_one]
    exact forall₂_congr fun c hc => by rw [hcount c hc]
  · exact fun hone => List.nodup_iff_count_eq_one.mpr fun _ hc => h.count_eq_one hone hc
  · rintro schema clauses rfl hnative
    exact nodup_typeClauses_iff hnative

/-- A puppy is a dog, and dogs and cats are animals. -/
def animals : Vocabulary :=
  ((tree.addChild "animal" "dog").addChild "animal" "cat").addChild "dog" "puppy"

theorem animals_grown : animals.Grown := .addChild (.addChild (.addChild .tree _ _) _ _) _ _

theorem animals_oneParent : animals.OneParent := by
  have hchild (parent child : String) (h : animals.IsChild parent child) :
      (parent, child) ∈ [("animal", "dog"), ("animal", "cat"), ("dog", "puppy")] := by
    simp only [animals, isChild_addChild, not_isChild_tree] at h
    simp only [List.mem_cons, Prod.mk.injEq, List.not_mem_nil]
    tauto
  intro parent other child hparent hother
  have h := hchild parent child hparent
  have h' := hchild other child hother
  simp only [List.mem_cons, Prod.mk.injEq, List.not_mem_nil, or_false] at h h'
  rcases h with ⟨rfl, rfl⟩ | ⟨rfl, rfl⟩ | ⟨rfl, rfl⟩ <;> exact Eq.symm (by simpa using h')

theorem descendants_animals : animals.descendants "animal" = ["dog", "puppy", "cat"] := by
  have hanimal : animals.childrenOf "animal" = ["dog", "cat"] := by decide +kernel
  have hdog : animals.childrenOf "dog" = ["puppy"] := by decide +kernel
  have hpuppy : animals.childrenOf "puppy" = [] := by decide +kernel
  have hcat : animals.childrenOf "cat" = [] := by decide +kernel
  simp [descendants, unlisted, descend, hanimal, hdog, hpuppy, hcat]

theorem nodup_descendants_iff_animals :
    animals.Grown ∧ animals.OneParent ∧ animals.descendants "animal" = ["dog", "puppy", "cat"] ∧
      (animals.descendants "animal").Nodup ∧
      ∀ c ∈ animals.descendants "animal",
        ((animals.upTo "animal" c).countP fun parent => c ∈ animals.childrenOf parent) = 1 := by
  obtain ⟨-, hiff, htree, -⟩ := nodup_descendants_iff animals_grown "animal"
  have hnodup := htree animals_oneParent
  exact ⟨animals_grown, animals_oneParent, descendants_animals, hnodup, hiff.mp hnodup⟩

/-- Dogs are animals and pets, and pets are animals. -/
def pets : Vocabulary :=
  ((tree.addChild "animal" "dog").addChild "animal" "pet").addChild "dog" "pet"

theorem descendants_pets : pets.descendants "animal" = ["dog", "pet", "pet"] := by
  have hanimal : pets.childrenOf "animal" = ["dog", "pet"] := by decide +kernel
  have hdog : pets.childrenOf "dog" = ["pet"] := by decide +kernel
  have hpet : pets.childrenOf "pet" = [] := by decide +kernel
  simp [descendants, unlisted, descend, hanimal, hdog, hpet]

/-- A value that is put on the stack twice before its first visit is listed twice. -/
theorem exists_listed_twice :
    ∃ (v : Vocabulary) (origin : String), v.Grown ∧ ¬ (v.descendants origin).Nodup :=
  ⟨pets, "animal", .addChild (.addChild (.addChild .tree _ _) _ _) _ _, by
    rw [descendants_pets]
    decide⟩

end Vocabulary
end GuardedSearch
