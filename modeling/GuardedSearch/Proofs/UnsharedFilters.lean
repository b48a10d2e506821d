import GuardedSearch.Index
import GuardedSearch.Proofs.NaiveScan
import GuardedSearch.Translation

/-!
# Filters of a translated query

Translation reads the index without a trace, and the filters that it makes have no cells yet
(`translate_unshared`), so their sets do not depend on what other filters have found.
-/

namespace GuardedSearch

namespace NativeQuery

/-- No filter of the query has a cell. -/
def Unshared (query : NativeQuery) : Prop := ∀ f ∈ query.filters, f.cell = .none

theorem Unshared.ownCells {query : NativeQuery} (h : query.Unshared) :
    WildcardFilter.OwnCells query.filters :=
  fun f hf _ _ _ hcell => absurd (h f hf) hcell

theorem Unshared.fresh {query : NativeQuery} (h : query.Unshared) (cache : FilterCache) :
    cache.Fresh query.filters := by
  intro f hf
  rw [FilterCache.get?, h f hf]
  rfl

theorem mem_filtersOf {queries : List NativeQuery} {f : WildcardFilter} :
    f ∈ filtersOf queries ↔ ∃ query ∈ queries, f ∈ query.filters := by
  induction queries with
  | nil => simp [filtersOf]
  | cons query rest ih => simp [filtersOf, ih]

theorem unshared_bool {must should mustNot : List NativeQuery} (hmust : ∀ q ∈ must, q.Unshared)
    (hshould : ∀ q ∈ should, q.Unshared) (hmustNot : ∀ q ∈ mustNot, q.Unshared) :
    (bool must should mustNot).Unshared := by
  intro f hf
  simp only [filters, List.mem_append, mem_filtersOf] at hf
  rcases hf with (⟨q, hq, hf⟩ | ⟨q, hq, hf⟩) | ⟨q, hq, hf⟩
  · exact hmust q hq f hf
  · exact hshould q hq f hf
  · exact hmustNot q hq f hf

theorem unshared_of_filters_eq_nil {query : NativeQuery} (h : query.filters = []) :
    query.Unshared := by
  intro f hf
  rw [h] at hf
  cases hf

theorem unshared_conj {clauses : List NativeQuery} (h : ∀ q ∈ clauses, q.Unshared) :
    (conj clauses).Unshared := by
  match clauses with
  | [] => exact unshared_of_filters_eq_nil rfl
  | [clause] => exact h clause List.mem_cons_self
  | first :: second :: rest => exact unshared_bool h (by simp) (by simp)

theorem unshared_disj {clauses : List NativeQuery} (h : ∀ q ∈ clauses, q.Unshared) :
    (disj clauses).Unshared := by
  match clauses with
  | [] => exact unshared_of_filters_eq_nil rfl
  | [clause] => exact h clause List.mem_cons_self
  | first :: second :: rest => exact unshared_bool (by simp) h (by simp)

theorem unshared_neg {query : NativeQuery} (h : query.Unshared) : (neg query).Unshared := by
  refine unshared_bool (fun q hq => ?_) (by simp) (by simpa using h)
  rw [List.mem_singleton.mp hq]
  exact unshared_of_filters_eq_nil rfl

theorem unshared_presentButNot {query : NativeQuery} (h : query.Unshared) (field : String) :
    (presentButNot field query).Unshared := by
  refine unshared_bool (fun q hq => ?_) (by simp) (by simpa using h)
  rw [List.mem_singleton.mp hq]
  exact unshared_of_filters_eq_nil rfl

theorem unshared_terms (field : String) (terms : List String) :
    (disj (terms.map (.term field))).Unshared := by
  refine unshared_disj fun q hq => ?_
  obtain ⟨term, -, rfl⟩ := List.mem_map.mp hq
  exact unshared_of_filters_eq_nil rfl

theorem unshared_inverted {query : NativeQuery} {inverted : Bool} (h : query.Unshared) :
    (if inverted = true then neg query else query).Unshared := by
  cases inverted with
  | false => exact h
  | true => exact unshared_neg h

end NativeQuery

namespace Query

open NativeQuery

variable {schema : Schema} {field raw : String} {native : NativeQuery}

theorem nativeTerm_unshared {operator : TermOperator}
    (h : nativeTerm schema field operator raw = .ok native) : native.Unshared := by
  simp only [nativeTerm, Outcome.bind_ok, Outcome.pure_ok] at h
  obtain ⟨term, -, rfl⟩ := h
  cases operator with
  | ne => exact unshared_presentButNot (unshared_of_filters_eq_nil rfl) field
  | _ => exact unshared_of_filters_eq_nil rfl

theorem nativeStartsWith_unshared {stem : String} {inverted : Bool}
    (h : nativeStartsWith schema field stem inverted = .ok native) : native.Unshared := by
  simp only [nativeStartsWith, Outcome.bind_ok, Outcome.pure_ok] at h
  obtain ⟨-, -, rfl⟩ := h
  exact unshared_inverted (unshared_of_filters_eq_nil rfl)

theorem nativeRange_unshared {lower upper : Option String} {inclusive : Bool}
    (h : nativeRange schema field lower upper inclusive = .ok native) : native.Unshared := by
  simp only [nativeRange] at h
  split at h
  · obtain rfl := Outcome.pure_ok.mp h
    exact unshared_of_filters_eq_nil rfl
  · simp only [Outcome.bind_ok, Outcome.pure_ok] at h
    obtain ⟨low, -, up, -, rfl⟩ := h
    exact unshared_of_filters_eq_nil rfl

theorem nativeWildcard_unshared {pattern : String}
    (h : nativeWildcard schema field pattern = .ok native) : native.Unshared := by
  simp only [nativeWildcard, Outcome.bind_ok, Outcome.pure_ok] at h
  obtain ⟨-, -, rfl⟩ := h
  intro f hf
  rw [List.mem_singleton.mp hf]
  rfl

theorem nativeUriDepth_unshared {depth : Nat} (h : nativeUriDepth depth = .ok native) :
    native.Unshared := by
  rw [nativeUriDepth] at h
  split at h
  · cases h
    exact unshared_of_filters_eq_nil rfl
  · cases h

theorem nativeResourceType_unshared {name : String} {operator : TypeOperator}
    (h : nativeResourceType schema name operator = .ok native) : native.Unshared := by
  simp only [nativeResourceType] at h
  cases operator <;> simp only at h
  case eq =>
    cases h
    exact unshared_of_filters_eq_nil rfl
  case ne =>
    cases h
    exact unshared_neg (unshared_of_filters_eq_nil rfl)
  case isA =>
    split at h
    · cases h
      exact unshared_terms _ _
    · cases h
  case isNotA =>
    split at h
    · cases h
      exact unshared_neg (unshared_terms _ _)
    · cases h

theorem nativeMembership_unshared {operator : MembershipOperator}
    (h : nativeMembership schema field operator raw = .ok native) : native.Unshared := by
  simp only [nativeMembership] at h
  split at h
  · cases h
  · simp only [Outcome.bind_ok, Outcome.pure_ok] at h
    obtain ⟨terms, -, rfl⟩ := h
    cases operator with
    | within => exact unshared_terms field terms
    | outside => exact unshared_presentButNot (unshared_terms field terms) field

-- ---------------------------------------------------------------------------
-- Reads
-- ---------------------------------------------------------------------------

variable {snapshot : SnapshotHandle} {state : FilterCache × Index}

theorem resolveId_reads {uri : String} {id : Option Int32} {state' : FilterCache × Index}
    (h : resolveId Index.engine snapshot uri state = (.ok id, state')) : state' = state := by
  simp only [resolveId, Step.bind_ok, Step.call_ok] at h
  obtain ⟨first?, mid, hlookup, h⟩ := h
  obtain rfl : state = mid := congrArg Prod.snd hlookup
  cases first? with
  | none => exact (Step.pure_ok.mp h).2.symm
  | some doc =>
    simp only [Step.bind_ok, Step.call_ok] at h
    obtain ⟨stored, mid, hfetch, h⟩ := h
    obtain rfl : state = mid := congrArg Prod.snd hfetch
    generalize (stored.get? Field.id).bind (·.head?) = value? at h
    cases value? with
    | none => exact (Step.pure_ok.mp h).2.symm
    | some value =>
      simp only [Step.bind_ok, Step.ofExcept_ok] at h
      obtain ⟨decoded, _, ⟨-, rfl⟩, h⟩ := h
      cases decoded <;> exact (Step.pure_ok.mp h).2.symm

theorem nativeSubtree_unshared {uri : String} {inverted : Bool} {state' : FilterCache × Index}
    (h : nativeSubtree Index.engine snapshot uri inverted state = (.ok native, state')) :
    state' = state ∧ native.Unshared := by
  simp only [nativeSubtree, Step.bind_ok] at h
  obtain ⟨subtree, mid, ⟨id, mid', hresolve, hsubtree⟩, h⟩ := h
  obtain rfl := resolveId_reads hresolve
  obtain ⟨rfl, rfl⟩ := Step.pure_ok.mp h
  cases id with
  | none =>
    obtain ⟨rfl, rfl⟩ := Step.pure_ok.mp hsubtree
    exact ⟨rfl, unshared_inverted (unshared_of_filters_eq_nil rfl)⟩
  | some n =>
    obtain ⟨rfl, rfl⟩ := Step.pure_ok.mp hsubtree
    exact ⟨rfl, unshared_inverted (unshared_of_filters_eq_nil rfl)⟩

theorem ofExcept_unshared {r : Except Error NativeQuery} {state' : FilterCache × Index}
    (h : Step.ofExcept r state = (.ok native, state')) (hr : r = .ok native → native.Unshared) :
    state' = state ∧ native.Unshared := by
  obtain ⟨hok, rfl⟩ := Step.ofExcept_ok.mp h
  exact ⟨rfl, hr hok⟩

mutual

/-- Translation leaves the index and the cells as they are, and makes filters without cells. -/
theorem translate_unshared : (query : Query) → {native : NativeQuery} →
    {state' : FilterCache × Index} →
    query.translate schema Index.engine snapshot state = (.ok native, state') →
      state' = state ∧ native.Unshared
  | .term .., _, _, h => ofExcept_unshared h nativeTerm_unshared
  | .startsWith .., _, _, h => ofExcept_unshared h nativeStartsWith_unshared
  | .range .., _, _, h => ofExcept_unshared h nativeRange_unshared
  | .wildcard .., _, _, h => ofExcept_unshared h nativeWildcard_unshared
  | .present _, _, _, h => by
    obtain ⟨rfl, rfl⟩ := Step.pure_ok.mp h
    exact ⟨rfl, unshared_of_filters_eq_nil rfl⟩
  | .subtree .., _, _, h => nativeSubtree_unshared h
  | .uriDepth _, _, _, h => ofExcept_unshared h nativeUriDepth_unshared
  | .resourceType .., _, _, h => ofExcept_unshared h nativeResourceType_unshared
  | .membership .., _, _, h => ofExcept_unshared h nativeMembership_unshared
  | .conj clauses, _, _, h => by
    simp only [translate, Step.bind_ok, Step.pure_ok] at h
    obtain ⟨natives, _, hnatives, rfl, rfl⟩ := h
    obtain ⟨hstate, hall⟩ := translateAll_unshared clauses hnatives
    exact ⟨hstate, unshared_conj hall⟩
  | .disj clauses, _, _, h => by
    simp only [translate, Step.bind_ok, Step.pure_ok] at h
    obtain ⟨natives, _, hnatives, rfl, rfl⟩ := h
    obtain ⟨hstate, hall⟩ := translateAll_unshared clauses hnatives
    exact ⟨hstate, unshared_disj hall⟩

theorem translateAll_unshared : (clauses : List Query) → {natives : List NativeQuery} →
    {state' : FilterCache × Index} →
    translateAll schema Index.engine snapshot clauses state = (.ok natives, state') →
      state' = state ∧ ∀ q ∈ natives, q.Unshared
  | [], _, _, h => by
    obtain ⟨rfl, rfl⟩ := Step.pure_ok.mp h
    exact ⟨rfl, fun _ hq => nomatch hq⟩
  | query :: rest, _, _, h => by
    simp only [translateAll, Step.bind_ok, Step.pure_ok] at h
    obtain ⟨native, _, hnative, others, _, hothers, rfl, rfl⟩ := h
    obtain ⟨hmid, hfirst⟩ := translate_unshared query hnative
    rw [hmid] at hothers
    obtain ⟨hstate, hrest⟩ := translateAll_unshared rest hothers
    exact ⟨hstate, List.forall_mem_cons.mpr ⟨hfirst, hrest⟩⟩

end

end Query

end GuardedSearch
