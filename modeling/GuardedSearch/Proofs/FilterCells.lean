import GuardedSearch.NativeQuery

/-!
# The cells of shared filters

What `get?` finds after `keepFirst`. Filters with one cell are answered alike, a cell that has a set
is left as it is, and one that is filled leaves the others.
-/

namespace GuardedSearch

namespace FilterCache

variable {cells : FilterCache} {f g : WildcardFilter} {found first : DocSet}

theorem get?_congr (h : f.cell = g.cell) : cells.get? f = cells.get? g := by
  rw [get?, get?, h]

theorem keepFirst_of_some (h : cells.get? f = some first) :
    cells.keepFirst f found = (first, cells) := by
  simp only [keepFirst, h]

theorem keepFirst_of_unshared (h : f.cell = none) : cells.keepFirst f found = (found, cells) := by
  simp only [keepFirst, get?, h, Option.bind_none]

theorem keepFirst_fst (cells : FilterCache) (f : WildcardFilter) (found : DocSet) :
    (cells.keepFirst f found).1 = (cells.get? f).getD found := by
  rw [keepFirst]
  cases cells.get? f with
  | some first => rfl
  | none => cases f.cell <;> rfl

theorem get?_keepFirst_self (h : cells.get? f = none) (hshared : f.cell.isSome) (found : DocSet) :
    (cells.keepFirst f found).2.get? f = some found := by
  obtain ⟨cell, hcell⟩ := Option.isSome_iff_exists.mp hshared
  rw [keepFirst, h]
  simp [hcell, get?]

theorem get?_keepFirst_of_ne (hne : g.cell ≠ f.cell) (found : DocSet) :
    (cells.keepFirst g found).2.get? f = cells.get? f := by
  rw [keepFirst]
  cases cells.get? g with
  | some first => rfl
  | none =>
    cases hg : g.cell with
    | none => rfl
    | some cell =>
      cases hf : f.cell with
      | none => simp [get?, hf]
      | some other =>
        have hcells : (other == cell) = false := by
          rw [beq_eq_false_iff_ne]
          rintro rfl
          exact hne (hg.trans hf.symm)
        simp only [get?, hf, Option.bind_some, List.lookup_cons, hcells]

/-- What a filter's cell holds after a set was to be kept for it. -/
theorem get?_keepFirst_eq_some (h : (cells.keepFirst f found).2.get? f = some first) :
    first = (cells.keepFirst f found).1 := by
  cases hget : cells.get? f with
  | some kept =>
    rw [keepFirst_of_some hget] at h ⊢
    exact Option.some.inj (h.symm.trans hget)
  | none =>
    rw [keepFirst_fst, hget, Option.getD_none]
    cases hcell : f.cell with
    | none =>
      rw [keepFirst_of_unshared hcell, hget] at h
      cases h
    | some cell =>
      rw [get?_keepFirst_self hget (by rw [hcell]; rfl)] at h
      exact (Option.some.inj h).symm

end FilterCache

end GuardedSearch
