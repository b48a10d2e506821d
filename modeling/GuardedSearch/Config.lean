import GuardedSearch.Error

/-!
# Configuration

The bounds of a search: how many documents one round may fetch, how fast the window grows,
how large a page may be, and how many searches run at once.
-/

namespace GuardedSearch

def maxLimit : Nat := 60000

structure SearchConfig where
  /-- The most documents that one round fetches. -/
  ceiling : Nat
  /-- The least window of every round after the first. -/
  minUpscale : Nat
  /-- The largest page; larger requests are cut to it. -/
  maxLimit : Nat
  maxConcurrentQueries : Nat
deriving DecidableEq, Repr

namespace SearchConfig

def default : SearchConfig := ⟨60000, 2000, GuardedSearch.maxLimit, 4⟩

instance : Inhabited SearchConfig := ⟨default⟩

/-- The settings by name, in the order in which they are checked. -/
def settings (c : SearchConfig) : List (String × Nat) :=
  [("ceiling", c.ceiling), ("min_upscale", c.minUpscale), ("max_limit", c.maxLimit),
    ("max_concurrent_queries", c.maxConcurrentQueries)]

/-- The first thing that is wrong with a configuration. -/
def fault? (c : SearchConfig) : Option ConfigError :=
  match c.settings.find? (·.2 == 0) with
  | some (name, _) => some (.zero name)
  | none =>
    if GuardedSearch.maxLimit < c.maxLimit then
      some (.limitTooLarge c.maxLimit GuardedSearch.maxLimit)
    else none

/-- Every setting is positive and the largest page is within bounds. -/
def IsValid (c : SearchConfig) : Prop := c.fault? = none

instance (c : SearchConfig) : Decidable c.IsValid := inferInstanceAs (Decidable (_ = _))

def validate (c : SearchConfig) : Except Error Unit :=
  match c.fault? with
  | some cause => .error (.config cause)
  | none => .ok ()

theorem isValid_iff {c : SearchConfig} :
    c.IsValid ↔ 0 < c.ceiling ∧ 0 < c.minUpscale ∧ 0 < c.maxLimit ∧ 0 < c.maxConcurrentQueries ∧
      c.maxLimit ≤ GuardedSearch.maxLimit := by
  have pos (n : Nat) : 0 < n ↔ (n == 0) = false := by simp [Nat.pos_iff_ne_zero]
  have le : c.maxLimit ≤ GuardedSearch.maxLimit ↔ ¬ GuardedSearch.maxLimit < c.maxLimit :=
    Nat.not_lt.symm
  rw [pos, pos, pos, pos, le]
  simp only [IsValid, fault?, settings, List.find?_cons, List.find?_nil]
  cases c.ceiling == 0 <;> cases c.minUpscale == 0 <;> cases c.maxLimit == 0 <;>
    cases c.maxConcurrentQueries == 0 <;> simp

theorem default_isValid : default.IsValid := by decide

end SearchConfig

end GuardedSearch
