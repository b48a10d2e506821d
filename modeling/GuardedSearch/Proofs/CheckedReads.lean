import GuardedSearch.Proofs.Dictionary

/-!
# Checked reads

A field keeps its postings in a vector, and its dictionary tells the place of each term; a segment
keeps its documents in a vector. `evaluate?` and `ranking?` evaluate and rank with a check at each
read of a vector. No check fails: `evaluate?_eq` for every query, whatever the cells of shared
filters hold, and `ranking?_eq` for ordinals of the segment.
-/

namespace GuardedSearch

-- ---------------------------------------------------------------------------
-- Layout
-- ---------------------------------------------------------------------------

/-- A field as it is laid out. -/
structure FieldLayout where
  /-- The terms in ascending order, each with the place of its postings. -/
  dictionary : List (String × Nat)
  postings : Array DocSet

/-- The place of each term is its rank among the terms. -/
def FieldIndex.layout (index : FieldIndex) : FieldLayout where
  dictionary := index.terms.entries.mapIdx fun place e => (e.1, place)
  postings := index.terms.values.toArray

namespace FieldLayout

def withTerm? (layout : FieldLayout) (term : String) : Option DocSet :=
  match layout.dictionary.lookup term with
  | some place => layout.postings[place]?
  | none => some ∅

/-- The postings of some entries of the dictionary, put together. -/
def union? (layout : FieldLayout) (entries : List (String × Nat)) : Option DocSet :=
  entries.foldlM (fun found e => (found ∪ ·) <$> layout.postings[e.2]?) ∅

def entriesUnder (layout : FieldLayout) (stem : String) : List (String × Nat) :=
  (layout.dictionary.dropWhile fun e => e.1 < stem).takeWhile fun e =>
    stem.toList.isPrefixOf e.1.toList

def entriesBetween (layout : FieldLayout) (lower upper : Bound) : List (String × Nat) :=
  (layout.dictionary.dropWhile fun e => !lower.admitsFromBelow e.1).takeWhile fun e =>
    upper.admitsFromAbove e.1

def entriesMatching (layout : FieldLayout) (pattern : String) : List (String × Nat) :=
  (layout.entriesUnder (Glob.literalStart pattern)).filter fun e => Glob.isMatch pattern e.1

/-- An entry with its postings in the place of their place. -/
def entry (layout : FieldLayout) (e : String × Nat) : String × DocSet :=
  (e.1, layout.postings[e.2]?.getD ∅)

end FieldLayout

namespace Segment

/-- Reads a field, if there is one. -/
def readField? (s : Segment) (field : String) (read : FieldLayout → Option DocSet) :
    Option DocSet :=
  match s.index? field with
  | some index => read index.layout
  | none => some ∅

mutual

/-- The evaluation of a query with checked reads. A filter whose cell is filled is not read. -/
def evaluate? (s : Segment) : NativeQuery → StateT FilterCache Option DocSet
  | .all => return s.live
  | .none => return ∅
  | .term field value => s.readField? field (·.withTerm? value)
  | .startsWith field stem =>
    s.readField? field fun layout => layout.union? (layout.entriesUnder stem)
  | .range field lower upper =>
    s.readField? field fun layout => layout.union? (layout.entriesBetween lower upper)
  | .present field => return s.withField field
  | .wildcard filter => fun cache =>
    match cache.get? filter with
    | some first => some (first ∩ s.live, cache)
    | none => do
      let found ← s.readField? filter.field fun layout =>
        layout.union? (layout.entriesMatching filter.pattern)
      let (found, cache) := cache.keepFirst filter found
      return (found ∩ s.live, cache)
  | .bool must should mustNot =>
    if must.isEmpty && should.isEmpty then return ∅
    else do
      let must ← evaluateAll? s must
      let should ← evaluateAll? s should
      let mustNot ← evaluateAll? s mustNot
      let base := match must, should with
        | [], should => DocSet.unionAll should
        | first :: rest, [] => rest.foldl (· ∩ ·) first
        | first :: rest, should => rest.foldl (· ∩ ·) first ∩ DocSet.unionAll should
      return mustNot.foldl (· \ ·) base

def evaluateAll? (s : Segment) : List NativeQuery → StateT FilterCache Option (List DocSet)
  | [] => return []
  | query :: rest => do
    let found ← evaluate? s query
    let others ← evaluateAll? s rest
    return found :: others

end

/-- The order of two documents, each read once. -/
def ranking? (s : Segment) (sorting : Sorting) (a b : Nat) : Option Ordering := do
  let x ← s.docs[a]?
  let y ← s.docs[b]?
  let compareBy (key : SortField) : Ordering :=
    match x.sortKeys.get? key.field, y.sortKeys.get? key.field with
    | some x, some y =>
      match key.order with
      | .asc => compare x y
      | .desc => compare y x
    | some _, none => .lt
    | none, some _ => .gt
    | none, none => .eq
  return (sorting.fields.foldr (fun key next => (compareBy key).then next) .eq).then (compare a b)

end Segment

-- ---------------------------------------------------------------------------
-- Dictionaries
-- ---------------------------------------------------------------------------

namespace FieldIndex

variable (index : FieldIndex)

/-- The dictionary leads to the postings of each term. -/
theorem map_entry_layout :
    index.layout.dictionary.map index.layout.entry = index.terms.entries := by
  refine List.ext_getElem (by simp [layout]) fun i hi hi' => ?_
  simp [layout, FieldLayout.entry, Table.values, hi']

theorem place_lt {e : String × Nat} (he : e ∈ index.layout.dictionary) :
    e.2 < index.layout.postings.size := by
  obtain ⟨i, hi, rfl⟩ := List.mem_mapIdx.mp he
  simpa [layout, Table.values] using hi

theorem lookup_map_entry (layout : FieldLayout) (entries : List (String × Nat)) (term : String) :
    (entries.map layout.entry).lookup term =
      (entries.lookup term).map fun place => layout.postings[place]?.getD ∅ := by
  induction entries with
  | nil => rfl
  | cons e rest ih =>
    rw [List.map_cons, FieldLayout.entry, List.lookup_cons, List.lookup_cons]
    cases term == e.1 with
    | true => rfl
    | false => exact ih

theorem withTerm?_layout (term : String) :
    index.layout.withTerm? term = some ((index.terms.get? term).getD ∅) := by
  rw [Table.get?, ← map_entry_layout, lookup_map_entry, FieldLayout.withTerm?]
  cases hplace : index.layout.dictionary.lookup term with
  | none => rfl
  | some place => simp [index.place_lt (Table.mem_of_lookup hplace)]

/-- Reads at places of the dictionary are within the postings. -/
theorem union?_layout {entries : List (String × Nat)} (h : entries ⊆ index.layout.dictionary) :
    index.layout.union? entries = some (Segment.postingsOf (entries.map index.layout.entry)) := by
  rw [FieldLayout.union?, Segment.postingsOf, DocSet.unionAll, List.map_map]
  generalize (∅ : DocSet) = found
  induction entries generalizing found with
  | nil => rfl
  | cons e rest ih =>
    have hread : index.layout.postings[e.2]? = some (index.layout.entry e).2 := by
      simp [FieldLayout.entry, index.place_lt (h (List.mem_cons_self ..))]
    rw [List.foldlM_cons, hread, List.map_cons, List.foldl_cons]
    exact ih (fun d hd => h (List.mem_cons_of_mem _ hd)) _

theorem union?_entriesUnder (stem : String) :
    index.layout.union? (index.layout.entriesUnder stem) =
      some (Segment.postingsOf (index.entriesUnder stem)) := by
  rw [union?_layout, entriesUnder, entriesFrom, ← map_entry_layout, List.dropWhile_map,
    List.takeWhile_map]
  · rfl
  · exact ((List.takeWhile_sublist _).trans (List.dropWhile_sublist _)).subset

theorem union?_entriesBetween (lower upper : Bound) :
    index.layout.union? (index.layout.entriesBetween lower upper) =
      some (Segment.postingsOf (index.entriesBetween lower upper)) := by
  rw [union?_layout, entriesBetween, ← map_entry_layout, List.dropWhile_map, List.takeWhile_map]
  · rfl
  · exact ((List.takeWhile_sublist _).trans (List.dropWhile_sublist _)).subset

theorem union?_entriesMatching (pattern : String) :
    index.layout.union? (index.layout.entriesMatching pattern) =
      some (Segment.postingsOf (index.entriesMatching pattern)) := by
  rw [union?_layout, entriesMatching, entriesUnder, entriesFrom, ← map_entry_layout,
    List.dropWhile_map, List.takeWhile_map, List.filter_map]
  · rfl
  · exact (List.filter_sublist.trans
      ((List.takeWhile_sublist _).trans (List.dropWhile_sublist _))).subset

end FieldIndex

-- ---------------------------------------------------------------------------
-- Segments
-- ---------------------------------------------------------------------------

namespace Segment

variable (s : Segment)

/-- A computation of which no check fails. -/
def unfailing {σ α : Type} (x : StateM σ α) : StateT σ Option α := fun state => some (x state)

theorem readField?_withTerm (field term : String) :
    s.readField? field (·.withTerm? term) = some (s.withTerm field term) := by
  unfold readField? withTerm
  cases s.index? field with
  | none => rfl
  | some index => exact index.withTerm?_layout term

theorem readField?_under (field stem : String) :
    s.readField? field (fun layout => layout.union? (layout.entriesUnder stem)) =
      some (postingsOf (s.termsUnder field stem)) := by
  unfold readField? termsUnder
  cases s.index? field with
  | none => rfl
  | some index => exact index.union?_entriesUnder stem

theorem readField?_between (field : String) (lower upper : Bound) :
    s.readField? field (fun layout => layout.union? (layout.entriesBetween lower upper)) =
      some (postingsOf (s.termsBetween field lower upper)) := by
  unfold readField? termsBetween
  cases s.index? field with
  | none => rfl
  | some index => exact index.union?_entriesBetween lower upper

theorem readField?_matching (field pattern : String) :
    s.readField? field (fun layout => layout.union? (layout.entriesMatching pattern)) =
      some (postingsOf (s.termsMatching field pattern)) := by
  unfold readField? termsMatching
  cases s.index? field with
  | none => rfl
  | some index => exact index.union?_entriesMatching pattern

mutual

/-- No check fails in an evaluation. -/
theorem evaluate?_eq : (query : NativeQuery) → s.evaluate? query = unfailing (s.evaluate query)
  | .all => rfl
  | .none => rfl
  | .term field value => by
    rw [evaluate?, readField?_withTerm]
    rfl
  | .startsWith field stem => by
    rw [evaluate?, readField?_under]
    rfl
  | .range field lower upper => by
    rw [evaluate?, readField?_between]
    rfl
  | .present field => rfl
  | .wildcard filter => by
    funext cache
    simp only [evaluate?, unfailing, evaluate, FilterCache.keepFirst]
    cases cache.get? filter with
    | some first => rfl
    | none =>
      rw [readField?_matching]
      cases filter.cell <;> rfl
  | .bool must should mustNot => by
    rw [evaluate?, evaluate]
    split
    · rfl
    · rw [evaluateAll?_eq must, evaluateAll?_eq should, evaluateAll?_eq mustNot]
      rfl

theorem evaluateAll?_eq : (queries : List NativeQuery) →
    s.evaluateAll? queries = unfailing (s.evaluateAll queries)
  | [] => rfl
  | query :: rest => by
    rw [evaluateAll?, evaluateAll, evaluate?_eq query, evaluateAll?_eq rest]
    rfl

end

/-- No check fails where two documents of the segment are ranked. -/
theorem ranking?_eq {a b : Nat} (ha : a < s.docs.size) (hb : b < s.docs.size)
    (sorting : Sorting) : s.ranking? sorting a b = some (s.ranking sorting a b) := by
  simp only [ranking?, ranking, compareBy, sortKey?, Array.getElem?_eq_getElem ha,
    Array.getElem?_eq_getElem hb, Option.bind_some]
  rfl

end Segment

end GuardedSearch
