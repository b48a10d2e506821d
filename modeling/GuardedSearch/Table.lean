/-!
# Tables

Finite maps from text to values, kept as a list of entries in strictly ascending key order.
Text is ordered by code points, which is also the order of its UTF-8 bytes. Two tables are
equal exactly when they hold the same value under every key.
-/

namespace GuardedSearch

/-- A finite map from text, its entries in ascending key order. -/
structure Table (α : Type u) where
  entries : List (String × α)
  sorted : entries.Pairwise (fun a b => a.1 < b.1)
deriving DecidableEq

namespace Table

variable {α : Type u} {β : Type v}

def empty : Table α := ⟨[], .nil⟩

instance : EmptyCollection (Table α) := ⟨empty⟩

instance : Inhabited (Table α) := ⟨empty⟩

def get? (t : Table α) (key : String) : Option α := t.entries.lookup key

def contains (t : Table α) (key : String) : Bool := (t.get? key).isSome

def size (t : Table α) : Nat := t.entries.length

def keys (t : Table α) : List String := t.entries.map (·.1)

def values (t : Table α) : List α := t.entries.map (·.2)

/-- Puts `f` of what stands under `key` in its place, in one pass over the entries. -/
def updateEntries (key : String) (f : Option α → α) : List (String × α) → List (String × α)
  | [] => [(key, f none)]
  | (k, v) :: rest =>
    if key = k then (k, f (some v)) :: rest
    else if key < k then (key, f none) :: (k, v) :: rest
    else (k, v) :: updateEntries key f rest

theorem mem_updateEntries {key : String} {f : Option α → α} {es : List (String × α)}
    {e : String × α} (h : e ∈ updateEntries key f es) : e.1 = key ∨ e ∈ es := by
  induction es with
  | nil => simp_all [updateEntries]
  | cons hd rest ih =>
    obtain ⟨k, v⟩ := hd
    rw [updateEntries] at h
    split at h
    · next hk =>
      rcases List.mem_cons.1 h with rfl | h
      · exact .inl hk.symm
      · exact .inr (List.mem_cons_of_mem _ h)
    · split at h
      · rcases List.mem_cons.1 h with rfl | h
        · exact .inl rfl
        · exact .inr h
      · rcases List.mem_cons.1 h with rfl | h
        · exact .inr (List.mem_cons_self ..)
        · exact (ih h).imp_right (List.mem_cons_of_mem _)

theorem lt_of_not_le {a b : String} (hne : ¬ a = b) (hlt : ¬ a < b) : b < a := by
  rcases String.le_total a b with h | h
  · exact absurd (String.le_antisymm h hlt) hne
  · exact Classical.byContradiction fun hba => hne (String.le_antisymm hba hlt)

theorem sorted_updateEntries {key : String} {f : Option α → α} {es : List (String × α)}
    (h : es.Pairwise (fun a b => a.1 < b.1)) :
    (updateEntries key f es).Pairwise (fun a b => a.1 < b.1) := by
  induction es with
  | nil => simp [updateEntries]
  | cons hd rest ih =>
    obtain ⟨k, v⟩ := hd
    obtain ⟨hk, hrest⟩ := List.pairwise_cons.1 h
    rw [updateEntries]
    split
    · exact List.pairwise_cons.2 ⟨hk, hrest⟩
    · next hne =>
      split
      · next hlt =>
        refine List.pairwise_cons.2 ⟨fun e he => ?_, h⟩
        rcases List.mem_cons.1 he with rfl | he
        · exact hlt
        · exact String.lt_trans hlt (hk e he)
      · next hlt =>
        refine List.pairwise_cons.2 ⟨fun e he => ?_, ih hrest⟩
        rcases mem_updateEntries he with heq | he
        · exact heq ▸ lt_of_not_le hne hlt
        · exact hk e he

/-- Puts `f` of what stands under `key` in its place. -/
def update (t : Table α) (key : String) (f : Option α → α) : Table α :=
  ⟨updateEntries key f t.entries, sorted_updateEntries t.sorted⟩

def insert (t : Table α) (key : String) (value : α) : Table α := t.update key fun _ => value

/-- The table of the given entries; of several under one key the last stands. -/
def ofList (es : List (String × α)) : Table α :=
  es.foldl (fun t e => t.insert e.1 e.2) empty

def filterKeys (t : Table α) (p : String → Bool) : Table α :=
  ⟨t.entries.filter fun e => p e.1, t.sorted.filter _⟩

def map (f : α → β) (t : Table α) : Table β :=
  ⟨t.entries.map fun e => (e.1, f e.2), List.pairwise_map.2 t.sorted⟩

@[simp] theorem get?_empty (key : String) : (empty : Table α).get? key = none := rfl

theorem lookup_updateEntries_self (key : String) (f : Option α → α) (es : List (String × α))
    (h : es.Pairwise (fun a b => a.1 < b.1)) :
    (updateEntries key f es).lookup key = some (f (es.lookup key)) := by
  induction es with
  | nil => simp [updateEntries]
  | cons hd rest ih =>
    obtain ⟨k, v⟩ := hd
    obtain ⟨hk, hrest⟩ := List.pairwise_cons.1 h
    rw [updateEntries]
    split
    · next heq => subst heq; simp
    · next hne =>
      have hbeq : (key == k) = false := by simp [hne]
      split
      · next hlt =>
        have habsent : rest.lookup key = none := by
          rw [List.lookup_eq_none_iff]
          intro e he
          have hlt' := String.lt_trans hlt (hk e he)
          have : key ≠ e.1 := fun heq => String.lt_irrefl _ (heq ▸ hlt')
          simp [this]
        simp [List.lookup_cons, hbeq, habsent]
      · simp [List.lookup_cons, hbeq, ih hrest]

theorem lookup_updateEntries_of_ne {key other : String} (hne : other ≠ key)
    (f : Option α → α) (es : List (String × α)) :
    (updateEntries key f es).lookup other = es.lookup other := by
  have hbeq : (other == key) = false := by simp [hne]
  induction es with
  | nil => simp [updateEntries, List.lookup_cons, hbeq]
  | cons hd rest ih =>
    obtain ⟨k, v⟩ := hd
    rw [updateEntries]
    split
    · next heq => subst heq; simp [List.lookup_cons, hbeq]
    · split
      · simp [List.lookup_cons, hbeq]
      · simp [List.lookup_cons, ih]

theorem get?_update (t : Table α) (key other : String) (f : Option α → α) :
    (t.update key f).get? other = if other = key then some (f (t.get? key)) else t.get? other := by
  split
  · next h => subst h; exact lookup_updateEntries_self _ _ _ t.sorted
  · next h => exact lookup_updateEntries_of_ne h _ _

theorem get?_insert (t : Table α) (key other : String) (value : α) :
    (t.insert key value).get? other = if other = key then some value else t.get? other :=
  get?_update t key other _

end Table

/-- A finite set of names, in ascending order. -/
abbrev NameSet := Table Unit

def NameSet.ofNames (names : List String) : NameSet := Table.ofList (names.map (·, ()))

end GuardedSearch
