import GuardedSearch.Proofs.LiteralTerms
import GuardedSearch.Proofs.QueryForms
import GuardedSearch.Proofs.Recording
import GuardedSearch.Proofs.Subtrees

/-!
# Queries that have no native form

A query is translated unless one of its leaves is rejected, and then the error is that of the
first leaf that is, however conjunctions and disjunctions nest (`translate_rejects_first`). What
a leaf is rejected for is said by its field, its literals and the schema alone.
-/

namespace GuardedSearch

-- ---------------------------------------------------------------------------
-- First failures
-- ---------------------------------------------------------------------------

section FirstFails

variable {α β ε : Type} {fails : α → ε → Prop} {l l' : List α} {error : ε}

/-- Of the elements that fail the first fails with the error. -/
inductive FirstFails (fails : α → ε → Prop) : List α → ε → Prop
  | here {a : α} {rest : List α} {error : ε} : fails a error → FirstFails fails (a :: rest) error
  | later {a : α} {rest : List α} {error : ε} : (∀ e, ¬ fails a e) →
    FirstFails fails rest error → FirstFails fails (a :: rest) error

/-- An element fails after some that do not. -/
theorem firstFails_iff : FirstFails fails l error ↔ ∃ before a after, l = before ++ a :: after ∧
    (∀ b ∈ before, ∀ e, ¬ fails b e) ∧ fails a error := by
  constructor
  · intro h
    induction h with
    | here ha => exact ⟨[], _, _, rfl, List.forall_mem_nil _, ha⟩
    | @later a rest error hnot hrest ih =>
      obtain ⟨before, b, after, rfl, hbefore, hb⟩ := ih
      exact ⟨a :: before, b, after, rfl, List.forall_mem_cons.mpr ⟨hnot, hbefore⟩, hb⟩
  · rintro ⟨before, a, after, rfl, hbefore, ha⟩
    induction before with
    | nil => exact .here ha
    | cons b before ih =>
      obtain ⟨hnot, hbefore⟩ := List.forall_mem_cons.mp hbefore
      exact .later hnot (ih hbefore)

/-- Some element fails first unless none fails. -/
theorem exists_firstFails_iff : (∃ error, FirstFails fails l error) ↔ ∃ a ∈ l, ∃ e, fails a e := by
  constructor
  · rintro ⟨error, h⟩
    obtain ⟨before, a, after, rfl, -, ha⟩ := firstFails_iff.mp h
    exact ⟨a, by simp, error, ha⟩
  · rintro ⟨a, ha, hfails⟩
    induction l with
    | nil => cases ha
    | cons b rest ih =>
      by_cases hb : ∃ e, fails b e
      · obtain ⟨e, he⟩ := hb
        exact ⟨e, .here he⟩
      · rcases List.mem_cons.mp ha with rfl | ha
        · exact absurd hfails hb
        · obtain ⟨e, he⟩ := ih ha
          exact ⟨e, .later (not_exists.mp hb) he⟩

theorem firstFails_nil : ¬ FirstFails fails [] error := nofun

theorem firstFails_cons_iff {a : α} : FirstFails fails (a :: l) error ↔
    fails a error ∨ (∀ e, ¬ fails a e) ∧ FirstFails fails l error := by
  constructor
  · intro h
    cases h with
    | here ha => exact .inl ha
    | later hnot hrest => exact .inr ⟨hnot, hrest⟩
  · rintro (ha | ⟨hnot, hrest⟩)
    · exact .here ha
    · exact .later hnot hrest

theorem firstFails_append_iff : FirstFails fails (l ++ l') error ↔
    FirstFails fails l error ∨ (∀ e, ¬ FirstFails fails l e) ∧ FirstFails fails l' error := by
  induction l with
  | nil => simp [firstFails_nil]
  | cons a l ih =>
    simp only [List.cons_append, firstFails_cons_iff, ih, not_or, forall_and]
    by_cases ha : ∀ e, ¬ fails a e <;> simp [ha]

/-- Steps in a row end with the error of the first that fails. -/
theorem Outcome.mapM_error {f : α → Except ε β} : l.mapM f = .error error ↔
    FirstFails (fun a e => f a = .error e) l error := by
  induction l with
  | nil => exact iff_of_false nofun firstFails_nil
  | cons a l ih =>
    rw [firstFails_cons_iff, ← ih, List.mapM_cons]
    cases f a with
    | error e => simp [bind, Except.bind]
    | ok b => cases l.mapM f <;> simp [bind, Except.bind, pure, Except.pure]

end FirstFails

namespace Step

variable {σ : Type} {α β : Type} {x : Step σ α} {f : α → Step σ β} {state : σ}
  {errors errors' : Error → Prop}

/-- A step that fails with just these errors, and leaves the state as it is. -/
def FailsWith (x : Step σ α) (state : σ) (errors : Error → Prop) : Prop :=
  ∃ outcome, x state = (outcome, state) ∧ ∀ e, outcome = .error e ↔ errors e

theorem failsWith_pure (a : α) : (pure a : Step σ α).FailsWith state fun _ => False :=
  ⟨.ok a, rfl, fun _ => iff_of_false nofun id⟩

theorem failsWith_ofExcept {r : Except Error α} (h : ∀ e, r = .error e ↔ errors e) :
    (ofExcept r : Step σ α).FailsWith state errors := ⟨r, rfl, h⟩

theorem FailsWith.congr (h : x.FailsWith state errors) (herrors : ∀ e, errors e ↔ errors' e) :
    x.FailsWith state errors' := by
  obtain ⟨outcome, hrun, houtcome⟩ := h
  exact ⟨outcome, hrun, fun e => (houtcome e).trans (herrors e)⟩

/-- What comes next fails only if the first does not. -/
theorem FailsWith.bind (hx : x.FailsWith state errors)
    (hf : ∀ a, (f a).FailsWith state errors') :
    (x >>= f).FailsWith state fun e => errors e ∨ (∀ e, ¬ errors e) ∧ errors' e := by
  obtain ⟨outcome, hrun, hfails⟩ := hx
  cases outcome with
  | error e =>
    refine ⟨.error e, by rw [bind_run, hrun], fun e' => ?_⟩
    simp [← hfails]
  | ok a =>
    obtain ⟨outcome', hrun', hfails'⟩ := hf a
    have hnone : ∀ e, ¬ errors e := fun e he => nomatch (hfails e).mpr he
    refine ⟨outcome', by rw [bind_run, hrun]; exact hrun', fun e => ?_⟩
    simp [hnone, hfails']

theorem FailsWith.map (hx : x.FailsWith state errors) (g : α → β) :
    (x >>= fun a => pure (g a)).FailsWith state errors :=
  (hx.bind fun a => failsWith_pure (g a)).congr fun e => by simp

/-- The outcome is a value unless there is an error to fail with. -/
theorem FailsWith.ok_iff (h : x.FailsWith state errors) :
    (∃ a, x state = (.ok a, state)) ↔ ∀ e, ¬ errors e := by
  obtain ⟨outcome, hrun, hfails⟩ := h
  cases outcome with
  | error e =>
    refine iff_of_false (fun ⟨a, ha⟩ => ?_) fun hnone => hnone e ((hfails e).mp rfl)
    rw [hrun] at ha
    cases ha
  | ok a => exact iff_of_true ⟨a, hrun⟩ fun e he => nomatch (hfails e).mpr he

theorem FailsWith.error_iff (h : x.FailsWith state errors) {e : Error} :
    x state = (.error e, state) ↔ errors e := by
  obtain ⟨outcome, hrun, hfails⟩ := h
  rw [hrun, Prod.mk.injEq, and_iff_left rfl, hfails]

end Step

-- ---------------------------------------------------------------------------
-- Leaves
-- ---------------------------------------------------------------------------

namespace Schema

variable {schema : Schema} {field raw : String} {error : Error}

/-- A literal is none of the field's type, and the error is the complaint about it. -/
def Refuses (schema : Schema) (field raw : String) (error : Error) : Prop :=
  ¬ (schema.typeOf field).IsLiteral raw ∧
    ∃ cause, (schema.typeOf field).termOfLiteral raw = .error cause ∧ error = .format cause

theorem literalTerm_error_iff :
    Query.literalTerm schema field raw = .error error ↔ schema.Refuses field raw error := by
  rw [Refuses, Query.literalTerm, ← FieldType.exists_termOfLiteral_iff]
  cases (schema.typeOf field).termOfLiteral raw with
  | ok term =>
    refine iff_of_false (fun h => ?_) (by simp)
    cases h
  | error cause =>
    change Except.error (Error.format cause) = _ ↔ _
    simp [eq_comm]

theorem exists_literalTerm_iff : (∃ term, Query.literalTerm schema field raw = .ok term) ↔
    (schema.typeOf field).IsLiteral raw := by
  simp only [Query.literalTerm, Outcome.mapError_ok, FieldType.exists_termOfLiteral_iff]

theorem exists_refuses_iff :
    (∃ error, schema.Refuses field raw error) ↔ ¬ (schema.typeOf field).IsLiteral raw := by
  rw [← exists_literalTerm_iff]
  simp only [← literalTerm_error_iff]
  cases Query.literalTerm schema field raw <;> simp

/-- The vocabulary of a field, which is a tree. -/
def HasTree (schema : Schema) (field : String) (vocabulary : Vocabulary) : Prop :=
  schema.vocabulary? field = some vocabulary ∧ vocabulary.hierarchical = true

theorem hasTree_iff {vocabulary : Vocabulary} : schema.HasTree field vocabulary ↔
    (schema.vocabulary? field).filter (·.hierarchical) = some vocabulary := by
  rw [HasTree, Option.filter_eq_some_iff]

end Schema

namespace Query

mutual

/-- The parts of a query that are no conjunctions or disjunctions, from left to right. -/
def leaves : Query → List Query
  | conj clauses | disj clauses => leavesAll clauses
  | query => [query]

def leavesAll : List Query → List Query
  | [] => []
  | query :: rest => query.leaves ++ leavesAll rest

end

/-- What a leaf is rejected for: a literal that is none of its field's type, a prefix or a pattern
for what is no text, a depth that is no `Int32`, a type below which none is known, or a field
without a vocabulary that is a tree. -/
def IsRejected (schema : Schema) : Query → Prop
  | term field _ literal => ¬ (schema.typeOf field).IsLiteral literal
  | range field lower upper _ => (∃ literal, lower = some literal ∧
      ¬ (schema.typeOf field).IsLiteral literal) ∨
    ∃ literal, upper = some literal ∧ ¬ (schema.typeOf field).IsLiteral literal
  | startsWith field _ _ | wildcard field _ => schema.typeOf field ≠ .text
  | uriDepth depth => 2147483647 < depth
  | resourceType name operator => (operator = .isA ∨ operator = .isNotA) ∧
    schema.typeTree.contains name = false
  | membership field _ value => (∀ vocabulary, ¬ schema.HasTree field vocabulary) ∨
    ∃ vocabulary, schema.HasTree field vocabulary ∧
      ∃ literal ∈ value :: vocabulary.descendants value, ¬ (schema.typeOf field).IsLiteral literal
  | present _ | subtree _ _ | conj _ | disj _ => False

/-- A leaf is rejected with an error. Of two ends of a range, and of the values that membership
expands to, the error is that of the first that is refused. -/
inductive RejectedWith (schema : Schema) : Query → Error → Prop
  | term {field literal : String} {operator : TermOperator} {error : Error} :
    schema.Refuses field literal error → RejectedWith schema (.term field operator literal) error
  | lower {field literal : String} {upper : Option String} {inclusive : Bool} {error : Error} :
    schema.Refuses field literal error →
    RejectedWith schema (.range field (some literal) upper inclusive) error
  | upper {field literal : String} {lower : Option String} {inclusive : Bool} {error : Error} :
    (∀ first, lower = some first → (schema.typeOf field).IsLiteral first) →
    schema.Refuses field literal error →
    RejectedWith schema (.range field lower (some literal) inclusive) error
  | startsWith {field stem : String} {inverted : Bool} : schema.typeOf field ≠ .text →
    RejectedWith schema (.startsWith field stem inverted)
      (.unsupportedQuery (.notTextField "PrefixQuery" field (schema.typeOf field)))
  | wildcard {field pattern : String} : schema.typeOf field ≠ .text →
    RejectedWith schema (.wildcard field pattern)
      (.unsupportedQuery (.notTextField "WildcardQuery" field (schema.typeOf field)))
  | uriDepth {depth : Nat} : 2147483647 < depth →
    RejectedWith schema (.uriDepth depth) (.invalidArgument (.depthTooLarge depth))
  | resourceType {name : String} {operator : TypeOperator} :
    operator = .isA ∨ operator = .isNotA → schema.typeTree.contains name = false →
    RejectedWith schema (.resourceType name operator)
      (.unsupportedQuery (.unknownResourceType name))
  | noTree {field value : String} {operator : MembershipOperator} :
    (∀ vocabulary, ¬ schema.HasTree field vocabulary) →
    RejectedWith schema (.membership field operator value)
      (.unsupportedQuery (.noHierarchicalVocabulary field))
  | member {field value : String} {operator : MembershipOperator} {vocabulary : Vocabulary}
    {error : Error} : schema.HasTree field vocabulary →
    FirstFails (schema.Refuses field) (value :: vocabulary.descendants value) error →
    RejectedWith schema (.membership field operator value) error

theorem isRejected_iff {schema : Schema} {leaf : Query} :
    leaf.IsRejected schema ↔ ∃ error, RejectedWith schema leaf error := by
  constructor
  · intro h
    cases leaf with
    | term field operator literal =>
      obtain ⟨error, herror⟩ := Schema.exists_refuses_iff.mpr h
      exact ⟨error, .term herror⟩
    | range field lower upper inclusive =>
      by_cases hlower : ∃ literal, lower = some literal ∧ ¬ (schema.typeOf field).IsLiteral literal
      · obtain ⟨literal, rfl, hliteral⟩ := hlower
        obtain ⟨error, herror⟩ := Schema.exists_refuses_iff.mpr hliteral
        exact ⟨error, .lower herror⟩
      · obtain ⟨literal, rfl, hliteral⟩ := h.resolve_left hlower
        obtain ⟨error, herror⟩ := Schema.exists_refuses_iff.mpr hliteral
        exact ⟨error, .upper (by simpa using hlower) herror⟩
    | startsWith => exact ⟨_, .startsWith h⟩
    | wildcard => exact ⟨_, .wildcard h⟩
    | uriDepth => exact ⟨_, .uriDepth h⟩
    | resourceType => exact ⟨_, .resourceType h.1 h.2⟩
    | membership field operator value =>
      rcases h with hnone | ⟨vocabulary, htree, literal, hmem, hliteral⟩
      · exact ⟨_, .noTree hnone⟩
      · obtain ⟨error, herror⟩ := exists_firstFails_iff.mpr
          ⟨literal, hmem, Schema.exists_refuses_iff.mpr hliteral⟩
        exact ⟨error, .member htree herror⟩
    | present | subtree | conj | disj => cases h
  · rintro ⟨error, h⟩
    cases h with
    | term h => exact h.1
    | lower h => exact .inl ⟨_, rfl, h.1⟩
    | upper _ h => exact .inr ⟨_, rfl, h.1⟩
    | startsWith h => exact h
    | wildcard h => exact h
    | uriDepth h => exact h
    | resourceType hoperator hname => exact ⟨hoperator, hname⟩
    | noTree h => exact .inl h
    | member htree h =>
      obtain ⟨literal, hmem, herror⟩ := exists_firstFails_iff.mp ⟨error, h⟩
      exact .inr ⟨_, htree, literal, hmem, Schema.exists_refuses_iff.mp herror⟩

-- ---------------------------------------------------------------------------
-- Native forms of leaves
-- ---------------------------------------------------------------------------

section Leaves

variable {schema : Schema} {field : String} {error : Error}

theorem nativeTerm_error_iff {operator : TermOperator} {literal : String} :
    nativeTerm schema field operator literal = .error error ↔
      RejectedWith schema (.term field operator literal) error := by
  rw [nativeTerm, Outcome.bind_error, Schema.literalTerm_error_iff]
  simp only [Outcome.pure_error, and_false, exists_false, or_false]
  constructor
  · exact .term
  · intro h
    cases h with
    | term h => exact h

theorem nativeBound_error_iff {inclusive : Bool} {literal? : Option String} :
    nativeBound schema field inclusive literal? = .error error ↔
      ∃ literal, literal? = some literal ∧ schema.Refuses field literal error := by
  cases literal? with
  | none => simp [nativeBound]
  | some literal =>
    rw [nativeBound, Outcome.bind_error, Schema.literalTerm_error_iff]
    simp [Outcome.pure_error]

theorem exists_nativeBound_iff {inclusive : Bool} {literal? : Option String} :
    (∃ bound, nativeBound schema field inclusive literal? = .ok bound) ↔
      ∀ literal, literal? = some literal → (schema.typeOf field).IsLiteral literal := by
  cases literal? with
  | none => simp [nativeBound]
  | some literal =>
    simp only [nativeBound, Outcome.bind_ok, Outcome.pure_ok, Option.some.injEq, forall_eq',
      ← Schema.exists_literalTerm_iff]
    constructor
    · rintro ⟨bound, literalTerm, hterm, -⟩
      exact ⟨literalTerm, hterm⟩
    · rintro ⟨literalTerm, hterm⟩
      exact ⟨_, literalTerm, hterm, rfl⟩

/-- The first end that is refused is reported. -/
theorem nativeRange_error {lower upper : Option String} {inclusive : Bool} :
    nativeRange schema field lower upper inclusive = .error error ↔
      nativeBound schema field inclusive lower = .error error ∨
        (∃ bound, nativeBound schema field inclusive lower = .ok bound) ∧
          nativeBound schema field inclusive upper = .error error := by
  by_cases hnone : (lower.isNone && upper.isNone) = true
  · rw [nativeRange, if_pos hnone]
    simp only [Bool.and_eq_true, Option.isNone_iff_eq_none] at hnone
    simp [hnone, nativeBound, Outcome.pure_error]
  · rw [nativeRange, if_neg hnone]
    simp only [Outcome.bind_error, Outcome.pure_error, and_false, exists_false, or_false,
      exists_and_right]

theorem nativeRange_error_iff {lower upper : Option String} {inclusive : Bool} :
    nativeRange schema field lower upper inclusive = .error error ↔
      RejectedWith schema (.range field lower upper inclusive) error := by
  rw [nativeRange_error, exists_nativeBound_iff, nativeBound_error_iff, nativeBound_error_iff]
  constructor
  · rintro (⟨literal, rfl, h⟩ | ⟨hlower, literal, rfl, h⟩)
    · exact .lower h
    · exact .upper hlower h
  · intro h
    cases h with
    | lower h => exact .inl ⟨_, rfl, h⟩
    | upper hlower h => exact .inr ⟨hlower, _, rfl, h⟩

theorem requireText_error_iff {kind : String} : requireText schema field kind = .error error ↔
    schema.typeOf field ≠ .text ∧
      error = .unsupportedQuery (.notTextField kind field (schema.typeOf field)) := by
  rw [requireText]
  cases schema.typeOf field <;> simp [eq_comm]

theorem nativeStartsWith_error_iff {stem : String} {inverted : Bool} :
    nativeStartsWith schema field stem inverted = .error error ↔
      RejectedWith schema (.startsWith field stem inverted) error := by
  rw [nativeStartsWith, Outcome.bind_error, requireText_error_iff]
  simp only [Outcome.pure_error, and_false, exists_false, or_false]
  constructor
  · rintro ⟨h, rfl⟩
    exact .startsWith h
  · intro h
    cases h with
    | startsWith h => exact ⟨h, rfl⟩

theorem nativeWildcard_error_iff {pattern : String} :
    nativeWildcard schema field pattern = .error error ↔
      RejectedWith schema (.wildcard field pattern) error := by
  rw [nativeWildcard, Outcome.bind_error, requireText_error_iff]
  simp only [Outcome.pure_error, and_false, exists_false, or_false]
  constructor
  · rintro ⟨h, rfl⟩
    exact .wildcard h
  · intro h
    cases h with
    | wildcard h => exact ⟨h, rfl⟩

theorem nativeUriDepth_error_iff {depth : Nat} :
    nativeUriDepth depth = .error error ↔ RejectedWith schema (.uriDepth depth) error := by
  rw [nativeUriDepth]
  constructor
  · intro h
    split at h
    · cases h
    · next hdepth =>
      obtain rfl := Except.error.inj h
      exact .uriDepth (Nat.le_of_not_lt hdepth)
  · intro h
    cases h with
    | uriDepth h => exact if_neg (Nat.not_lt.mpr h)

theorem nativeResourceType_error_iff {name : String} {operator : TypeOperator} :
    nativeResourceType schema name operator = .error error ↔
      RejectedWith schema (.resourceType name operator) error := by
  have hrejected : nativeResourceType schema name operator = .error error ↔
      (operator = .isA ∨ operator = .isNotA) ∧ schema.typeTree.contains name = false ∧
        error = .unsupportedQuery (.unknownResourceType name) := by
    cases hname : schema.typeTree.contains name <;> cases operator <;>
      simp [nativeResourceType, hname, Except.map, eq_comm]
  rw [hrejected]
  constructor
  · rintro ⟨hoperator, hname, rfl⟩
    exact .resourceType hoperator hname
  · intro h
    cases h with
    | resourceType hoperator hname => exact ⟨hoperator, hname, rfl⟩

theorem nativeMembership_error_iff {operator : MembershipOperator} {value : String} :
    nativeMembership schema field operator value = .error error ↔
      RejectedWith schema (.membership field operator value) error := by
  rw [nativeMembership]
  cases htree : (schema.vocabulary? field).filter (·.hierarchical) with
  | none =>
    have hnone : ∀ vocabulary, ¬ schema.HasTree field vocabulary := by
      simp [Schema.hasTree_iff, htree]
    constructor
    · intro h
      obtain rfl := Except.error.inj h
      exact .noTree hnone
    · intro h
      cases h with
      | noTree => rfl
      | member h => exact absurd h (hnone _)
  | some vocabulary =>
    have hsome : schema.HasTree field vocabulary := Schema.hasTree_iff.mpr htree
    simp only [Outcome.bind_error, Outcome.mapM_error, Outcome.pure_error, and_false,
      exists_false, or_false, Schema.literalTerm_error_iff]
    constructor
    · exact .member hsome
    · intro h
      cases h with
      | noTree h => exact absurd hsome (h _)
      | member hother h =>
        rw [Schema.hasTree_iff, htree] at hother
        obtain rfl := Option.some.inj hother
        exact h

end Leaves

-- ---------------------------------------------------------------------------
-- Translation
-- ---------------------------------------------------------------------------

section Translation

variable {schema : Schema} {docs : List Document} {index : Index} {snapshot : SnapshotHandle}
  {s : Segment} {cells : FilterCache}

theorem leaves_of_isLeaf {q : Query} (h : q.IsLeaf) : q.leaves = [q] := by
  cases q with
  | conj | disj => exact h.elim
  | _ => rfl

theorem Joins.leaves_eq {clauses : List Query} {q : Query} (h : Joins clauses q) :
    q.leaves = leavesAll clauses := by
  cases h <;> rfl

/-- The clauses of a query fail with what the first of their leaves is rejected with. -/
theorem translateAll_failsWith (clauses : List Query)
    (h : ∀ c ∈ clauses, (c.translate schema Index.engine snapshot).FailsWith (cells, index)
      (FirstFails (RejectedWith schema) c.leaves)) :
    (translateAll schema Index.engine snapshot clauses).FailsWith (cells, index)
      (FirstFails (RejectedWith schema) (leavesAll clauses)) := by
  induction clauses with
  | nil => exact (Step.failsWith_pure []).congr fun e => iff_of_false id firstFails_nil
  | cons query rest ih =>
    obtain ⟨hquery, hrest⟩ := List.forall_mem_cons.mp h
    rw [translateAll, leavesAll]
    exact (hquery.bind fun native => (ih hrest).map _).congr fun e => firstFails_append_iff.symm

variable (hsnapshot : index.segment? snapshot = .ok s) (hs : s.Represents docs)
  (hids : ∀ doc ∈ docs, doc.HasIntegerIds)

include hsnapshot hs hids

theorem translate_leaf {q : Query} (h : q.IsLeaf) :
    (q.translate schema Index.engine snapshot).FailsWith (cells, index)
      (RejectedWith schema q) := by
  cases q with
  | term => exact Step.failsWith_ofExcept fun e => nativeTerm_error_iff
  | startsWith => exact Step.failsWith_ofExcept fun e => nativeStartsWith_error_iff
  | range => exact Step.failsWith_ofExcept fun e => nativeRange_error_iff
  | wildcard => exact Step.failsWith_ofExcept fun e => nativeWildcard_error_iff
  | present => exact (Step.failsWith_pure _).congr fun e => iff_of_false id nofun
  | subtree uri inverted =>
    exact ⟨_, nativeSubtree_run hsnapshot hs hids uri inverted, fun e => iff_of_false nofun nofun⟩
  | uriDepth => exact Step.failsWith_ofExcept fun e => nativeUriDepth_error_iff
  | resourceType => exact Step.failsWith_ofExcept fun e => nativeResourceType_error_iff
  | membership => exact Step.failsWith_ofExcept fun e => nativeMembership_error_iff
  | conj | disj => exact h.elim

/-- A query fails with what the first of its leaves that is rejected is rejected with. -/
theorem translate_failsWith (q : Query) :
    (q.translate schema Index.engine snapshot).FailsWith (cells, index)
      (FirstFails (RejectedWith schema) q.leaves) := by
  induction q using induction_clauses with
  | leaf q h =>
    rw [leaves_of_isLeaf h]
    refine (translate_leaf hsnapshot hs hids h).congr fun e => ?_
    simp [firstFails_cons_iff, firstFails_nil]
  | joint q clauses h ih =>
    rw [h.leaves_eq]
    have hall := translateAll_failsWith clauses ih
    cases h with
    | conj => exact hall.map _
    | disj => exact hall.map _

end Translation

end Query

namespace Index

/-- Through an open snapshot of an index a query is translated, and changes nothing, unless one of
its leaves is rejected. Otherwise it fails with what the first leaf that is rejected, from left to
right, is rejected with. -/
theorem translate_rejects_first {operations later : List Operation} {snapshot : SnapshotHandle}
    {opened : Index} (hacquire : (empty.run operations).acquire = (snapshot, opened))
    (hopen : .release snapshot ∉ later) (schema : Schema) (cells : FilterCache) (query : Query) :
    ((∃ native, query.translate schema engine snapshot (cells, opened.run later) =
        (.ok native, cells, opened.run later)) ↔
      ∀ leaf ∈ query.leaves, ¬ leaf.IsRejected schema) ∧
    (∀ error, query.translate schema engine snapshot (cells, opened.run later) =
        (.error error, cells, opened.run later) ↔
      ∃ before leaf after, query.leaves = before ++ leaf :: after ∧
        (∀ other ∈ before, ¬ other.IsRejected schema) ∧ leaf.RejectedWith schema error) ∧
    ∀ leaf : Query, leaf.IsRejected schema ↔ ∃ error, leaf.RejectedWith schema error := by
  obtain ⟨s, hshown, hs, haccepted⟩ := acquire_shows_published hacquire hopen
  have hids := fun doc hdoc => hasIntegerIds_of_accepted (haccepted doc hdoc)
  have hfails := @Query.translate_failsWith schema _ _ _ _ cells hshown hs hids query
  refine ⟨?_, fun error => ?_, fun leaf => Query.isRejected_iff⟩
  · rw [hfails.ok_iff, ← not_exists, exists_firstFails_iff]
    simp only [Query.isRejected_iff, not_exists, not_and]
  · rw [hfails.error_iff, firstFails_iff]
    simp only [Query.isRejected_iff, not_exists]

/-- A depth that is too large, below a conjunction and before a type that is not known. -/
def twiceRejected : Query :=
  .conj [.present "tag", .disj [.subtree "/docs" false, .uriDepth 2147483648],
    .resourceType "folder" .isA]

theorem translate_rejects_first_nested : ∃ opened,
    (empty.run nested).acquire = (⟨1⟩, opened) ∧
      twiceRejected.translate Schema.initial engine ⟨1⟩
          (.empty, opened.run [.delete "/docs/a", .commit]) =
        (.error (.invalidArgument (.depthTooLarge 2147483648)), .empty,
          opened.run [.delete "/docs/a", .commit]) ∧
      ∃ native, (Query.range Field.depth none none true).translate Schema.initial engine ⟨1⟩
          (.empty, opened.run [.delete "/docs/a", .commit]) =
        (.ok native, .empty, opened.run [.delete "/docs/a", .commit]) := by
  have hacquire : (empty.run nested).acquire = (⟨1⟩, (empty.run nested).acquire.2) := rfl
  have hopen : Operation.release ⟨1⟩ ∉ [.delete "/docs/a", .commit] := by decide
  have hrejects := fun query =>
    translate_rejects_first hacquire hopen Schema.initial .empty query
  refine ⟨_, hacquire, ((hrejects twiceRejected).2.1 _).mpr ?_, (hrejects _).1.mpr ?_⟩
  · exact ⟨[.present "tag", .subtree "/docs" false], _, _, rfl, by simp [Query.IsRejected],
      .uriDepth (by decide)⟩
  · simp [Query.leaves, Query.IsRejected]

end Index

end GuardedSearch
