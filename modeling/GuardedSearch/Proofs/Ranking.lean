import GuardedSearch.Proofs.NaiveScan
import Mathlib.Data.String.Basic
import Mathlib.Order.Compare
import Mathlib.Order.Defs.Unbundled

/-!
# The ranking order

`Precedes` says which of two places comes first: key by key by the terms of the documents' first
values, and the lower place where all keys agree. It is a strict total order for any keys, and
sorting by it is what a segment does (`ranked_pairwise`). `execute_ranks` says what an index
answers under each limit, also when it answers the same query again.
-/

namespace GuardedSearch

-- ---------------------------------------------------------------------------
-- The order of two places
-- ---------------------------------------------------------------------------

/-- The index term of a document's first value in a field. -/
def Document.firstTerm? (doc : Document) (field : String) : Option String :=
  (doc.field? field).bind fun v => v.term.toOption

/-- The term that comes first by one key, in the order of the bytes or in reverse. A missing term
comes last in both directions. -/
inductive SortOrder.Before : SortOrder → Option String → Option String → Prop
  | asc {x y : String} (h : Text.bytes x < Text.bytes y) : Before .asc (some x) (some y)
  | desc {x y : String} (h : Text.bytes y < Text.bytes x) : Before .desc (some x) (some y)
  | missing (order : SortOrder) (x : String) : Before order (some x) none

/-- The first term of the document at a place. -/
def firstTermAt (docs : List Document) (field : String) (place : Nat) : Option String :=
  docs[place]?.bind (·.firstTerm? field)

/-- Which of two places comes first: by the first key on which they differ, and the lower one
where there is none. -/
def Precedes (docs : List Document) : List SortField → Nat → Nat → Prop
  | [], a, b => a < b
  | key :: rest, a, b =>
    key.order.Before (firstTermAt docs key.field a) (firstTermAt docs key.field b) ∨
      firstTermAt docs key.field a = firstTermAt docs key.field b ∧ Precedes docs rest a b

namespace SortOrder

variable {order : SortOrder} {x y z : Option String}

@[simp]
theorem before_none : order.Before x none ↔ x.isSome = true := by
  constructor
  · rintro ⟨⟩
    rfl
  · cases x with
    | none => simp
    | some x => exact fun _ => .missing order x

@[simp]
theorem not_none_before : ¬ order.Before none x := by
  rintro ⟨⟩

@[simp]
theorem asc_before_iff {x y : String} : asc.Before (some x) (some y) ↔ x < y := by
  rw [← Text.bytes_lt_iff]
  constructor
  · rintro ⟨h⟩
    assumption
  · exact .asc

@[simp]
theorem desc_before_iff {x y : String} : desc.Before (some x) (some y) ↔ y < x := by
  rw [← Text.bytes_lt_iff]
  constructor
  · rintro ⟨h⟩
    assumption
  · exact .desc

theorem before_irrefl : ¬ order.Before x x := by
  cases x with
  | none => exact not_none_before
  | some x => cases order <;> simp

theorem before_trans (hxy : order.Before x y) (hyz : order.Before y z) : order.Before x z := by
  cases hxy with
  | asc hxy =>
    cases hyz with
    | asc hyz => exact .asc (List.lt_trans hxy hyz)
    | missing => exact .missing ..
  | desc hxy =>
    cases hyz with
    | desc hyz => exact .desc (List.lt_trans hyz hxy)
    | missing => exact .missing ..
  | missing => cases hyz

theorem before_trichotomous (hxy : ¬ order.Before x y) (hyx : ¬ order.Before y x) : x = y := by
  cases x with
  | none =>
    cases y with
    | none => rfl
    | some y => simp at hyx
  | some x =>
    cases y with
    | none => simp at hxy
    | some y =>
      cases order with
      | asc =>
        simp only [asc_before_iff, not_lt] at hxy hyx
        exact congrArg some (le_antisymm hyx hxy)
      | desc =>
        simp only [desc_before_iff, not_lt] at hxy hyx
        exact congrArg some (le_antisymm hxy hyx)

end SortOrder

section Order

variable {docs : List Document} {keys : List SortField} {a b c : Nat}

theorem precedes_irrefl : ¬ Precedes docs keys a a := by
  induction keys with
  | nil => exact Nat.lt_irrefl a
  | cons key rest ih =>
    rintro (h | ⟨-, h⟩)
    · exact SortOrder.before_irrefl h
    · exact ih h

theorem precedes_trans (hab : Precedes docs keys a b) (hbc : Precedes docs keys b c) :
    Precedes docs keys a c := by
  induction keys with
  | nil => exact Nat.lt_trans hab hbc
  | cons key rest ih =>
    rcases hab with hab | ⟨hkab, hab⟩
    · rcases hbc with hbc | ⟨hkbc, -⟩
      · exact .inl (SortOrder.before_trans hab hbc)
      · exact .inl (hkbc ▸ hab)
    · rcases hbc with hbc | ⟨hkbc, hbc⟩
      · exact .inl (hkab ▸ hbc)
      · exact .inr ⟨hkab.trans hkbc, ih hab hbc⟩

theorem precedes_trichotomous (hab : ¬ Precedes docs keys a b) (hba : ¬ Precedes docs keys b a) :
    a = b := by
  induction keys with
  | nil => exact Nat.le_antisymm (Nat.le_of_not_lt hba) (Nat.le_of_not_lt hab)
  | cons key rest ih =>
    simp only [Precedes, not_or, not_and] at hab hba
    have hkey := SortOrder.before_trichotomous hab.1 hba.1
    exact ih (hab.2 hkey) (hba.2 hkey.symm)

/-- The keys may be any, in any directions. -/
instance precedes_isStrictTotalOrder (docs : List Document) (keys : List SortField) :
    IsStrictTotalOrder Nat (Precedes docs keys) where
  irrefl _ := precedes_irrefl
  trans _ _ _ := precedes_trans
  trichotomous _ _ := precedes_trichotomous

end Order

-- ---------------------------------------------------------------------------
-- Sort keys
-- ---------------------------------------------------------------------------

namespace Segment

variable {s : Segment} {docs : List Document}

theorem head?_termsIn {doc : Document} {field : String}
    (h : ∀ v ∈ doc.valuesOf field, ∃ term, v.term = .ok term) :
    (doc.termsIn field).head? = doc.firstTerm? field := by
  rw [Document.termsIn, Document.firstTerm?, Document.field?]
  cases hvalues : doc.valuesOf field with
  | nil => rfl
  | cons v rest =>
    obtain ⟨term, hterm⟩ := h v (by simp [hvalues])
    simp [hterm, Except.toOption]

/-- The sort keys of a document are the terms of its first values. -/
theorem get?_sortKeysOf {doc : Document} {fieldTerms : List (String × List String)}
    (h : termsOf doc = .ok fieldTerms) (field : String) :
    (sortKeysOf fieldTerms).get? field = doc.firstTerm? field := by
  obtain ⟨rfl, hvalues⟩ := termsOf_ok h
  have hascending : ((doc.fields.entries.map fun e => (e.1, doc.termsIn e.1)).filterMap
      fun e => e.2.head?.map (e.1, ·)).Pairwise fun a b => a.1 < b.1 := by
    rw [List.filterMap_map]
    refine doc.fields.sorted.filterMap _ ?_
    simp only [Function.comp_apply, Option.map_eq_some_iff]
    rintro d e hlt _ ⟨x, -, rfl⟩ _ ⟨y, -, rfl⟩
    exact hlt
  rw [← head?_termsIn (hvalues field)]
  ext term
  rw [sortKeysOf, Table.get?_ofList hascending,
    ← exists_fieldTerms_iff (fun terms => terms.head? = some term) (by simp)]
  simp only [List.mem_filterMap, Option.map_eq_some_iff, Prod.mk.injEq]
  constructor
  · rintro ⟨e, he, x, hx, rfl, rfl⟩
    exact ⟨e, he, rfl, hx⟩
  · rintro ⟨e, he, rfl, hx⟩
    exact ⟨e, he, term, hx, rfl, rfl⟩

theorem add_sortKey? {s' : Segment} {doc : Document} (hsize : s.docs.size = docs.length)
    (h : ∀ field i, s.sortKey? field i = firstTermAt docs field i) (hadd : s.add doc = .ok s') :
    ∀ field i, s'.sortKey? field i = firstTermAt (docs ++ [doc]) field i := by
  obtain ⟨-, fieldTerms, hterms, rfl⟩ := add_ok hadd
  intro field i
  have hi := h field i
  simp only [sortKey?, firstTermAt] at hi ⊢
  rcases Nat.lt_trichotomy i docs.length with hlt | rfl | hgt
  · rwa [Array.getElem?_push_lt (hsize ▸ hlt), ← Array.getElem?_eq_getElem,
      List.getElem?_append_left hlt]
  · simp [← hsize, get?_sortKeysOf hterms]
  · rw [Array.getElem?_eq_none (by simp; omega), List.getElem?_eq_none (by simp; omega)]
    rfl

/-- A segment sorts the documents it is built of by their first terms. -/
theorem build_sortKey? {version : Nat} (h : build version docs = .ok s) (field : String)
    (i : Nat) : s.sortKey? field i = firstTermAt docs field i := by
  refine (build_induction (P := fun s docs => s.Represents docs ∧
    ∀ field i, s.sortKey? field i = firstTermAt docs field i) ?_ ?_ h).2 field i
  · exact fun version => ⟨initial_represents version, fun field i => by simp [sortKey?, initial,
      firstTermAt]⟩
  · rintro s s' docs doc ⟨hs, hkeys⟩ hadd
    exact ⟨add_represents hs hadd, add_sortKey? hs.size_eq hkeys hadd⟩

-- ---------------------------------------------------------------------------
-- Ranked places
-- ---------------------------------------------------------------------------

section Ranked

variable {a b : Nat} (hkeys : ∀ field i, s.sortKey? field i = firstTermAt docs field i)

theorem ranking_nil (s : Segment) (a b : Nat) : s.ranking ⟨[]⟩ a b = compare a b := by
  simp [ranking]

theorem ranking_cons (s : Segment) (key : SortField) (rest : List SortField) (a b : Nat) :
    s.ranking ⟨key :: rest⟩ a b = (s.compareBy key a b).then (s.ranking ⟨rest⟩ a b) := by
  simp [ranking, Ordering.then_assoc]

include hkeys

theorem compareBy_eq_lt_iff {key : SortField} : s.compareBy key a b = .lt ↔
    key.order.Before (firstTermAt docs key.field a) (firstTermAt docs key.field b) := by
  unfold compareBy
  rw [hkeys, hkeys]
  cases firstTermAt docs key.field a with
  | none => cases firstTermAt docs key.field b <;> simp
  | some x =>
    cases firstTermAt docs key.field b with
    | none => simp
    | some y => cases key.order <;> simp [compare_lt_iff_lt]

theorem compareBy_eq_eq_iff {key : SortField} : s.compareBy key a b = .eq ↔
    firstTermAt docs key.field a = firstTermAt docs key.field b := by
  unfold compareBy
  rw [hkeys, hkeys]
  cases firstTermAt docs key.field a with
  | none => cases firstTermAt docs key.field b <;> simp
  | some x =>
    cases firstTermAt docs key.field b with
    | none => simp
    | some y =>
      cases key.order with
      | asc => simp only [compare_eq_iff_eq, Option.some_inj]
      | desc => simp only [compare_eq_iff_eq, Option.some_inj, eq_comm (a := y)]

/-- A segment ranks one place before another just when it precedes it. -/
theorem ranking_eq_lt_iff {sorting : Sorting} :
    s.ranking sorting a b = .lt ↔ Precedes docs sorting.fields a b := by
  obtain ⟨keys⟩ := sorting
  induction keys with
  | nil => simp [ranking_nil, Precedes, compare_lt_iff_lt]
  | cons key rest ih =>
    rw [ranking_cons, Ordering.then_eq_lt, ih, compareBy_eq_lt_iff hkeys,
      compareBy_eq_eq_iff hkeys]
    rfl

theorem ranking_eq_eq_iff {sorting : Sorting} : s.ranking sorting a b = .eq ↔ a = b := by
  constructor
  · intro h
    exact compare_eq_iff_eq.mp (Ordering.then_eq_eq.mp h).2
  · rintro rfl
    obtain ⟨keys⟩ := sorting
    induction keys with
    | nil => simp [ranking_nil]
    | cons key rest ih => simp [ranking_cons, ih, (compareBy_eq_eq_iff hkeys).mpr]

theorem ranking_isLE_iff {sorting : Sorting} : (s.ranking sorting a b).isLE = true ↔
    Precedes docs sorting.fields a b ∨ a = b := by
  rw [← ranking_eq_lt_iff hkeys, ← ranking_eq_eq_iff hkeys]
  cases s.ranking sorting a b <;> simp

/-- The places of a set are ranked each before all that come after it. -/
theorem ranked_pairwise (sorting : Sorting) (found : DocSet) :
    (s.ranked sorting found).Pairwise (Precedes docs sorting.fields) := by
  have hle : (s.ranked sorting found).Pairwise fun a b =>
      Precedes docs sorting.fields a b ∨ a = b := by
    unfold ranked
    split
    · next horder =>
      rw [Sorting.isDocumentOrder, List.isEmpty_iff] at horder
      rw [horder]
      exact (List.pairwise_lt_range.filter _).imp .inl
    · simp only [← ranking_isLE_iff hkeys]
      apply List.pairwise_mergeSort
      · simp only [ranking_isLE_iff hkeys]
        rintro a b c (hab | rfl) (hbc | rfl)
        · exact .inl (precedes_trans hab hbc)
        · exact .inl hab
        · exact .inl hbc
        · exact .inr rfl
      · intro a b
        rw [Bool.or_eq_true, ranking_isLE_iff hkeys, ranking_isLE_iff hkeys]
        by_contra hnot
        simp only [not_or] at hnot
        exact hnot.1.2 (precedes_trichotomous hnot.1.1 hnot.2.1)
  exact hle.imp₂ (fun _ _ h hne => h.resolve_right hne) (s.nodup_ranked sorting found)

end Ranked

end Segment

-- ---------------------------------------------------------------------------
-- Repeated evaluations
-- ---------------------------------------------------------------------------

namespace FilterCache

variable {cache mid later : FilterCache} {filter : WildcardFilter} {found : DocSet}

/-- What the cells held they hold later. -/
def Extends (later cache : FilterCache) : Prop :=
  ∀ filter found, cache.get? filter = some found → later.get? filter = some found

theorem Extends.refl : cache.Extends cache := fun _ _ h => h

theorem Extends.trans (h : later.Extends mid) (h' : mid.Extends cache) : later.Extends cache :=
  fun filter found hget => h filter found (h' filter found hget)

theorem keepFirst_extends (cache : FilterCache) (filter : WildcardFilter) (found : DocSet) :
    (cache.keepFirst filter found).2.Extends cache := by
  intro other first hother
  by_cases hcell : filter.cell = other.cell
  · rw [keepFirst_of_some ((get?_congr hcell).trans hother)]
    exact hother
  · rw [get?_keepFirst_of_ne hcell, hother]

theorem keepFirst_again (h : later.Extends (cache.keepFirst filter found).2) :
    later.keepFirst filter found = ((cache.keepFirst filter found).1, later) := by
  cases hget : cache.get? filter with
  | some first =>
    rw [keepFirst_of_some hget] at h ⊢
    exact keepFirst_of_some (h filter first hget)
  | none =>
    cases hcell : filter.cell with
    | none => rw [keepFirst_of_unshared hcell, keepFirst_of_unshared hcell]
    | some cell =>
      have hfilled := h filter found (get?_keepFirst_self hget (by rw [hcell]; rfl) found)
      rw [keepFirst_of_some hfilled, keepFirst_fst, hget, Option.getD_none]

/-- A computation that only fills cells, and with the cells it leaves gives the same again. -/
def Repeats {α : Type} (compute : StateM FilterCache α) : Prop :=
  ∀ cache, (compute cache).2.Extends cache ∧
    ∀ later : FilterCache, later.Extends (compute cache).2 →
      compute later = ((compute cache).1, later)

theorem Repeats.pure {α : Type} (a : α) : Repeats (pure a) := fun _ => ⟨.refl, fun _ _ => rfl⟩

theorem Repeats.bind {α β : Type} {compute : StateM FilterCache α} {f : α → StateM FilterCache β}
    (hcompute : Repeats compute) (hf : ∀ a, Repeats (f a)) : Repeats (compute >>= f) := by
  intro cache
  obtain ⟨hfirst, hagain⟩ := hcompute cache
  obtain ⟨hthen, hthenAgain⟩ := hf (compute cache).1 (compute cache).2
  refine ⟨hthen.trans hfirst, fun later hlater => ?_⟩
  change f (compute later).1 (compute later).2 = _
  rw [hagain later (hlater.trans hthen)]
  exact hthenAgain later hlater

end FilterCache

namespace Segment

open FilterCache (Repeats)

mutual

/-- A query finds again what it found, with the cells that the first evaluation has filled. -/
theorem evaluate_repeats (s : Segment) : (query : NativeQuery) → Repeats (s.evaluate query)
  | .all => .pure _
  | .none => .pure _
  | .term .. => .pure _
  | .startsWith .. => .pure _
  | .range .. => .pure _
  | .present _ => .pure _
  | .wildcard filter => by
    intro cache
    refine ⟨FilterCache.keepFirst_extends cache filter _, fun later hlater => ?_⟩
    have hagain := FilterCache.keepFirst_again hlater
    simp only [evaluate, hagain]
  | .bool must should mustNot => by
    unfold evaluate
    split
    · exact .pure _
    · refine (evaluateAll_repeats s must).bind fun musts => ?_
      refine (evaluateAll_repeats s should).bind fun shoulds => ?_
      exact (evaluateAll_repeats s mustNot).bind fun mustNots => .pure _

theorem evaluateAll_repeats (s : Segment) : (queries : List NativeQuery) →
    Repeats (s.evaluateAll queries)
  | [] => .pure _
  | query :: rest => by
    unfold evaluateAll
    refine (evaluate_repeats s query).bind fun found => ?_
    exact (evaluateAll_repeats s rest).bind fun others => .pure _

end

theorem top_run (s : Segment) (query : NativeQuery) (limit : Nat) (sorting : Sorting)
    (cells : FilterCache) : s.top query limit sorting cells =
      (⟨((s.ranked sorting (s.evaluate query cells).1).take limit).map DocId.mk,
        (s.evaluate query cells).1.size⟩, (s.evaluate query cells).2) := rfl

end Segment

-- ---------------------------------------------------------------------------
-- Answers
-- ---------------------------------------------------------------------------

namespace Index

/-- A committed segment answers a query from one list of the matching places, for each sorting: it
stands in strictly ascending order, and the answer under a limit is its front with the count of
all. To answer the same query again, with what shared filters have found the first time, gives
the same. -/
theorem execute_ranks {index committed later : Index} {version : Nat} {snapshot : SnapshotHandle}
    (hcommit : index.commit = (.ok version, committed))
    (hsnapshot : later.segment? snapshot = .ok committed.current)
    (query : NativeQuery) (cache : FilterCache) :
    ∃ found settled, committed.current.evaluate query cache = (found, settled) ∧
      (WildcardFilter.OwnCells query.filters → cache.Fresh query.filters →
        found.Selects index.staged query.accepts) ∧
      ∀ sorting : Sorting,
        IsStrictTotalOrder Nat (Precedes index.staged sorting.fields) ∧
        ∃ ranked : List Nat, ranked.Perm found.toList ∧
          ranked.Pairwise (Precedes index.staged sorting.fields) ∧
          (∀ limit cells, cells = cache ∨ cells = settled →
            later.execute snapshot query limit sorting cells =
              (.ok ⟨(ranked.take limit).map DocId.mk, ranked.length⟩, settled)) ∧
          ∀ limit wider narrow wide, limit ≤ wider →
            (later.execute snapshot query limit sorting cache).1 = .ok narrow →
            (later.execute snapshot query wider sorting settled).1 = .ok wide →
              narrow.docs = wide.docs.take limit := by
  have hbuild := commit_build hcommit
  generalize committed.current = s at hsnapshot hbuild
  obtain ⟨-, hagain⟩ := s.evaluate_repeats query cache
  rcases hfound : s.evaluate query cache with ⟨found, settled⟩
  simp only [hfound] at hagain
  refine ⟨found, settled, rfl, ?_, fun sorting => ⟨inferInstance, s.ranked sorting found, ?_⟩⟩
  · intro hown hfresh
    have hselects := Segment.evaluate_settled (Segment.build_represents hbuild) hown query
      hfresh.settled fun _ hf => hf
    simpa only [hfound] using hselects.1
  · have hperm := s.ranked_perm sorting found
    have hanswer (limit : Nat) (cells : FilterCache) (hcells : cells = cache ∨ cells = settled) :
        later.execute snapshot query limit sorting cells =
          (.ok ⟨((s.ranked sorting found).take limit).map DocId.mk,
            (s.ranked sorting found).length⟩, settled) := by
      have hevaluate : s.evaluate query cells = (found, settled) := by
        rcases hcells with rfl | rfl
        · exact hfound
        · exact hagain _ .refl
      rw [execute_eq hsnapshot, Segment.top_run, hevaluate, hperm.length_eq, ← DocSet.size]
    refine ⟨hperm, Segment.ranked_pairwise (Segment.build_sortKey? hbuild) sorting found, hanswer,
      ?_⟩
    intro limit wider narrow wide hlimit hnarrow hwide
    rw [hanswer limit cache (.inl rfl)] at hnarrow
    rw [hanswer wider settled (.inr rfl)] at hwide
    cases hnarrow
    cases hwide
    simp [List.take_take, hlimit, ← List.map_take]

/-- Three staged documents, of which the second has no tag. -/
def partlyTagged : Index :=
  { empty with
    staged :=
      [(Document.empty.addValue Field.uri (.text "/a")).addValue "tag" (.text "x"),
       Document.empty.addValue Field.uri (.text "/b"),
       (Document.empty.addValue Field.uri (.text "/c")).addValue "tag" (.text "x")] }

/-- Of two documents with one tag the later uri comes first, and the one without a tag is last. -/
theorem execute_ranks_partlyTagged : ∃ ranked : List Nat,
    Precedes partlyTagged.staged [⟨"tag", .asc⟩, ⟨Field.uri, .desc⟩] 2 0 ∧
      Precedes partlyTagged.staged [⟨"tag", .asc⟩, ⟨Field.uri, .desc⟩] 0 1 ∧
      ranked.Pairwise (Precedes partlyTagged.staged [⟨"tag", .asc⟩, ⟨Field.uri, .desc⟩]) ∧
      ∀ limit, (partlyTagged.commit.2.acquire.2.execute ⟨1⟩ .all limit
          ⟨[⟨"tag", .asc⟩, ⟨Field.uri, .desc⟩]⟩ .empty).1 =
        .ok ⟨(ranked.take limit).map DocId.mk, ranked.length⟩ := by
  have hcommit : partlyTagged.commit = (.ok 1, partlyTagged.commit.2) := rfl
  have hsnapshot : partlyTagged.commit.2.acquire.2.segment? ⟨1⟩ =
      .ok partlyTagged.commit.2.current := rfl
  obtain ⟨found, settled, -, -, hranks⟩ := execute_ranks hcommit hsnapshot .all .empty
  obtain ⟨-, ranked, -, hranked, hanswer, -⟩ := hranks ⟨[⟨"tag", .asc⟩, ⟨Field.uri, .desc⟩]⟩
  refine ⟨ranked, .inr ⟨rfl, .inl (.desc (by decide))⟩, .inl (.missing ..), hranked, ?_⟩
  intro limit
  rw [hanswer limit _ (.inl rfl)]

end Index

end GuardedSearch
