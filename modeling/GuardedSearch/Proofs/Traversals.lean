import GuardedSearch.Proofs.Descendants
import Mathlib.Logic.Function.Iterate

/-!
# The loop of a traversal

The values below a value are listed by a loop over a stack, which puts the children that it has
yet to list in the place of the value that it takes. `traversal_ends` says that the loop leaves
nothing on the stack, for any parents and children, and that it has then listed the values that
are reached.
-/

namespace GuardedSearch.Vocabulary

/-- Where a traversal stands: the values to visit, the next one first, and those that it has
listed. -/
structure Traversal where
  stack : List String
  out : List String

/-- One turn of the loop. The value that is taken from the stack is listed, unless it is the
origin. With nothing left to visit the loop has ended. -/
def turn (v : Vocabulary) (origin : String) : Traversal → Traversal
  | ⟨[], out⟩ => ⟨[], out⟩
  | ⟨current :: rest, out⟩ =>
    ⟨v.unlisted origin current out ++ rest, if current = origin then out else out ++ [current]⟩

variable {v : Vocabulary} {origin : String} {stack out : List String}

/-- The origin does not come back to the stack. -/
theorem origin_not_mem_turn {current : String} (h : origin ∉ stack) :
    origin ∉ v.unlisted origin current out ++ stack := by
  rw [List.mem_append, not_or]
  exact ⟨fun hmem => (mem_unlisted.mp hmem).2.1 rfl, h⟩

/-- Every turn lists one value, until all is listed. -/
theorem turns_descend (inside : ∀ c ∈ stack, c ∈ v.listed) (h : origin ∉ stack) :
    ∃ turns, (v.turn origin)^[turns] ⟨stack, out⟩ = ⟨[], v.descend origin stack out inside⟩ ∧
      out.length + turns = (v.descend origin stack out inside).length := by
  induction stack, out, inside using descend.induct v origin with
  | case1 out inside _ =>
    rw [descend]
    exact ⟨0, rfl, rfl⟩
  | case2 out current rest inside _ ih =>
    obtain ⟨hcurrent, hrest⟩ := not_or.mp (mt List.mem_cons.mpr h)
    obtain ⟨turns, hend, hcount⟩ := ih (origin_not_mem_turn hrest)
    rw [descend]
    refine ⟨turns + 1, ?_, ?_⟩
    · rw [Function.iterate_succ_apply, turn, if_neg (Ne.symm hcurrent)]
      exact hend
    · rw [List.length_append, List.length_singleton] at hcount
      omega

/-- The first turn takes the origin, and every other one lists a value. -/
theorem turns_descendants (v : Vocabulary) (value : String) :
    (v.turn value)^[(v.descendants value).length + 1] ⟨[value], []⟩ =
      ⟨[], v.descendants value⟩ := by
  have hstart : value ∉ v.unlisted value value [] := fun hmem => (mem_unlisted.mp hmem).2.1 rfl
  have inside : ∀ c ∈ v.unlisted value value [], c ∈ v.listed :=
    fun _ hc => mem_listed_of_mem_unlisted hc
  obtain ⟨turns, hend, hcount⟩ := @turns_descend v value _ [] inside hstart
  rw [List.length_nil, Nat.zero_add] at hcount
  rw [Function.iterate_succ_apply, turn, if_pos rfl, List.append_nil, descendants, ← hcount]
  exact hend

/-- The traversal below a value comes to its end, whatever parents and children the vocabulary
has: one turn for the value and one for each that is listed leave nothing on the stack. What is
listed then are the other values that are reached from the value by one step to a child or more. -/
theorem traversal_ends (v : Vocabulary) (value : String) :
    (v.turn value)^[(v.descendants value).length + 1] ⟨[value], []⟩ =
        ⟨[], v.descendants value⟩ ∧
      ∀ c, c ∈ v.descendants value ↔ c ≠ value ∧ Relation.TransGen v.IsChild value c :=
  ⟨v.turns_descendants value, fun _ => mem_descendants_iff⟩

end GuardedSearch.Vocabulary
