import GuardedSearch.Proofs.DirectReading
import GuardedSearch.Proofs.NaiveScan
import GuardedSearch.Proofs.StoredForms

/-!
# Translation keeps the meaning of a query

A document satisfies a query, read on its values, just when it satisfies the native form, tested
on its index terms. The lemmas go case by case: what each native form asks of the terms of a
document, and what the literals in it stand for.
-/

namespace GuardedSearch

-- ---------------------------------------------------------------------------
-- Native forms on the values of a document
-- ---------------------------------------------------------------------------

namespace Document

variable {doc : Document} {field : String}

/-- Every value has an index term. -/
def Indexable (doc : Document) : Prop :=
  ∀ field, ∀ v ∈ doc.valuesOf field, ∃ term, v.term = .ok term

theorem any_termsIn_iff {p : String → Bool} : (doc.termsIn field).any p = true ↔
    ∃ v ∈ doc.valuesOf field, ∃ term, v.term = .ok term ∧ p term = true := by
  rw [termsIn, List.any_filterMap, List.any_eq_true]
  refine exists_congr fun v => and_congr_right fun _ => ?_
  cases v.term <;> simp [Except.toOption]

end Document

namespace NativeQuery

variable {doc : Document} {field : String}

theorem accepts_term_iff {value : String} : accepts doc (.term field value) = true ↔
    ∃ v ∈ doc.valuesOf field, v.term = .ok value := by
  rw [accepts, Document.any_termsIn_iff]
  simp

/-- A field of integers has the term of a number just when it has the number. -/
theorem accepts_ofInt32_iff (h : ∀ v ∈ doc.valuesOf field, v.fieldType = .int32) {n : Int32} :
    accepts doc (.term field (Term.ofInt32 n)) = true ↔ .int32 n ∈ doc.valuesOf field := by
  rw [accepts_term_iff]
  constructor
  · rintro ⟨v, hv, hterm⟩
    have htype := h v hv
    cases v with
    | int32 m => rwa [Term.ofInt32_inj (Except.ok.inj hterm)] at hv
    | _ => cases htype
  · exact fun hn => ⟨_, hn, rfl⟩

theorem accepts_range_iff {lower upper : Bound} :
    accepts doc (.range field lower upper) = true ↔ ∃ v ∈ doc.valuesOf field, ∃ term,
      v.term = .ok term ∧ lower.isBelow term = true ∧ upper.isAbove term = true := by
  rw [accepts, Document.any_termsIn_iff]
  simp only [Bool.and_eq_true]

theorem accepts_present_iff : accepts doc (.present field) = true ↔ doc.valuesOf field ≠ [] := by
  simp [accepts]

theorem accepts_conj_iff {clauses : List NativeQuery} :
    accepts doc (conj clauses) = true ↔ ∀ clause ∈ clauses, accepts doc clause = true := by
  match clauses with
  | [] => simp [conj, accepts]
  | [clause] => simp [conj]
  | first :: second :: rest => simp [conj, accepts, acceptsAll_eq, acceptsAny]

theorem accepts_disj_iff {clauses : List NativeQuery} :
    accepts doc (disj clauses) = true ↔ ∃ clause ∈ clauses, accepts doc clause = true := by
  match clauses with
  | [] => simp [disj, accepts]
  | [clause] => simp [disj]
  | first :: second :: rest => simp [disj, accepts, acceptsAny_eq, acceptsAny, acceptsAll]

theorem accepts_neg_iff {query : NativeQuery} :
    accepts doc (neg query) = true ↔ ¬ accepts doc query = true := by
  simp [neg, accepts, acceptsAll, acceptsAny]

theorem accepts_presentButNot_iff {query : NativeQuery} :
    accepts doc (presentButNot field query) = true ↔
      doc.valuesOf field ≠ [] ∧ ¬ accepts doc query = true := by
  simp [presentButNot, accepts, acceptsAll, acceptsAny]

/-- Of an inverted native form a document satisfies the negation. -/
theorem accepts_inverted_iff {query : NativeQuery} {inverted : Bool} {p : Prop}
    (h : accepts doc query = true ↔ p) :
    accepts doc (if inverted = true then neg query else query) = true ↔
      Query.Inverted inverted p := by
  cases inverted with
  | false => exact h
  | true => exact accepts_neg_iff.trans (not_congr h)

mutual

/-- Queries that are alike are satisfied by the same documents. -/
theorem accepts_congr : {q r : NativeQuery} → beq q r = true → accepts doc q = accepts doc r
  | .all, .all, _ => rfl
  | .none, .none, _ => rfl
  | .term f v, .term g w, h => by
    simp only [beq, Bool.and_eq_true, beq_iff_eq] at h
    rw [h.1, h.2]
  | .startsWith f v, .startsWith g w, h => by
    simp only [beq, Bool.and_eq_true, beq_iff_eq] at h
    rw [h.1, h.2]
  | .range f l u, .range g m w, h => by
    simp only [beq, Bool.and_eq_true, beq_iff_eq] at h
    rw [h.1.1, h.1.2, h.2]
  | .present f, .present g, h => by
    simp only [beq, beq_iff_eq] at h
    rw [h]
  | .wildcard f, .wildcard g, h => by
    have h : (f.field == g.field && f.pattern == g.pattern) = true := h
    rw [Bool.and_eq_true, beq_iff_eq, beq_iff_eq] at h
    rw [accepts, accepts, h.1, h.2]
  | .bool a b c, .bool a' b' c', h => by
    simp only [beq, Bool.and_eq_true] at h
    obtain ⟨hmust, hshould, hmustNot⟩ := h.1.1, h.1.2, h.2
    obtain ⟨hmust, -, hmustEmpty⟩ := acceptsList_congr hmust
    obtain ⟨-, hshould, hshouldEmpty⟩ := acceptsList_congr hshould
    obtain ⟨-, hmustNot, -⟩ := acceptsList_congr hmustNot
    rw [accepts, accepts, hmust, hmustEmpty, hshould, hshouldEmpty, hmustNot]

theorem acceptsList_congr : {qs rs : List NativeQuery} → beqList qs rs = true →
    acceptsAll doc qs = acceptsAll doc rs ∧ acceptsAny doc qs = acceptsAny doc rs ∧
      qs.isEmpty = rs.isEmpty
  | [], [], _ => ⟨rfl, rfl, rfl⟩
  | q :: qs, r :: rs, h => by
    simp only [beqList, Bool.and_eq_true] at h
    obtain ⟨hall, hany, -⟩ := acceptsList_congr h.2
    rw [acceptsAll, acceptsAll, acceptsAny, acceptsAny, accepts_congr h.1, hall, hany]
    exact ⟨rfl, rfl, rfl⟩

end

end NativeQuery

-- ---------------------------------------------------------------------------
-- Literals
-- ---------------------------------------------------------------------------

/-- The operator between two terms. -/
def TermOperator.Relates : TermOperator → String → String → Prop
  | .eq, s, t => s = t
  | .ne, s, t => s ≠ t
  | .gt, s, t => t < s
  | .ge, s, t => ¬ s < t
  | .lt, s, t => s < t
  | .le, s, t => ¬ t < s

theorem TermOperator.relates_iff {s t : String} {o : Ordering} (h : Text.Compares s t o)
    (operator : TermOperator) : operator.Relates s t ↔ operator.Admits o := by
  cases o with
  | lt =>
    have h : s < t := h
    have hne : s ≠ t := fun heq => String.lt_irrefl _ (heq ▸ h)
    have hnot : ¬ t < s := fun hgt => String.lt_irrefl _ (String.lt_trans h hgt)
    cases operator <;> simp [Relates, Admits, h, hne, hnot]
  | eq =>
    have h : s = t := h
    subst h
    cases operator <;> simp [Relates, Admits]
  | gt =>
    have h : t < s := h
    have hne : s ≠ t := fun heq => String.lt_irrefl _ (heq ▸ h)
    have hnot : ¬ s < t := fun hlt => String.lt_irrefl _ (String.lt_trans h hlt)
    cases operator <;> simp [Relates, Admits, h, hne, hnot]

namespace Bound

variable {s t : String}

theorem isBelow_inclusive_iff : (inclusive t).isBelow s = true ↔ TermOperator.ge.Relates s t := by
  simp [← admitsFromBelow_eq, admitsFromBelow, TermOperator.Relates]

theorem isBelow_exclusive_iff : (exclusive t).isBelow s = true ↔ TermOperator.gt.Relates s t := by
  simp [← admitsFromBelow_eq, admitsFromBelow, TermOperator.Relates]

theorem isAbove_inclusive_iff : (inclusive t).isAbove s = true ↔ TermOperator.le.Relates s t := by
  simp [← admitsFromAbove_eq, admitsFromAbove, TermOperator.Relates]

theorem isAbove_exclusive_iff : (exclusive t).isAbove s = true ↔ TermOperator.lt.Relates s t := by
  simp [← admitsFromAbove_eq, admitsFromAbove, TermOperator.Relates]

end Bound

theorem FieldType.fieldType_of_readLiteral {type : FieldType} {raw : String} {v : FieldValue}
    (h : type.readLiteral raw = .ok v) : v.fieldType = type := by
  cases type <;> simp only [readLiteral] at h
  case text =>
    cases h
    rfl
  all_goals
    split at h
    · cases h
      rfl
    · cases h

namespace Query

variable {schema : Schema} {field raw : String} {doc : Document}

theorem literalTerm_ok {term : String} (h : literalTerm schema field raw = .ok term) :
    ∃ literal, (schema.typeOf field).readLiteral raw = .ok literal ∧ literal.term = .ok term := by
  rw [literalTerm, Outcome.mapError_ok, FieldType.termOfLiteral, Outcome.bind_ok] at h
  exact h

/-- A value of the field's type stands to a literal as its term stands to the literal's term. -/
theorem compares_iff {term s : String} {v : FieldValue} (operator : TermOperator)
    (hterm : literalTerm schema field raw = .ok term) (htype : v.fieldType = schema.typeOf field)
    (hv : v.term = .ok s) : Compares schema field operator raw v ↔ operator.Relates s term := by
  obtain ⟨literal, hliteral, hlterm⟩ := literalTerm_ok hterm
  have hltype := FieldType.fieldType_of_readLiteral hliteral
  obtain ⟨o, ho⟩ := FieldValue.exists_order? (htype.trans hltype.symm)
  rw [operator.relates_iff (FieldValue.compares_of_order? hv hlterm ho)]
  constructor
  · rintro ⟨literal', o', hliteral', ho', hadmits⟩
    obtain rfl := Except.ok.inj (hliteral.symm.trans hliteral')
    obtain rfl := Option.some.inj (ho.symm.trans ho')
    exact hadmits
  · exact fun hadmits => ⟨literal, o, hliteral, ho, hadmits⟩

-- ---------------------------------------------------------------------------
-- Comparisons
-- ---------------------------------------------------------------------------

section Leaves

variable {docs : List Document} {native : NativeQuery} (hindexable : doc.Indexable)
  (hconforms : doc.Conforms schema)

include hindexable hconforms

theorem exists_relates_iff {term : String} (operator : TermOperator)
    (hterm : literalTerm schema field raw = .ok term) :
    (∃ v ∈ doc.valuesOf field, ∃ s, v.term = .ok s ∧ operator.Relates s term) ↔
      ∃ v ∈ doc.valuesOf field, Compares schema field operator raw v := by
  refine exists_congr fun v => and_congr_right fun hv => ?_
  obtain ⟨s, hs⟩ := hindexable field v hv
  rw [compares_iff operator hterm (hconforms field v hv) hs]
  constructor
  · rintro ⟨s', hs', hrelates⟩
    rwa [Except.ok.inj (hs.symm.trans hs')]
  · exact fun hrelates => ⟨s, hs, hrelates⟩

theorem accepts_term_iff_hasLiteral {term : String}
    (hterm : literalTerm schema field raw = .ok term) :
    NativeQuery.accepts doc (.term field term) = true ↔ HasLiteral schema doc field raw := by
  rw [NativeQuery.accepts_term_iff, HasLiteral, ← exists_relates_iff hindexable hconforms .eq hterm]
  simp [TermOperator.Relates]

theorem nativeTerm_holds {operator : TermOperator}
    (h : nativeTerm schema field operator raw = .ok native) :
    native.accepts doc = true ↔ Holds schema docs doc (.term field operator raw) := by
  simp only [nativeTerm, Outcome.bind_ok, Outcome.pure_ok] at h
  obtain ⟨term, hterm, rfl⟩ := h
  have hrelates := fun operator => exists_relates_iff hindexable hconforms operator hterm
  cases operator with
  | eq => exact accepts_term_iff_hasLiteral hindexable hconforms hterm
  | ne =>
    simp only [Holds]
    rw [NativeQuery.accepts_presentButNot_iff,
      accepts_term_iff_hasLiteral hindexable hconforms hterm]
  | gt =>
    simp only [Holds, ← hrelates, NativeQuery.accepts_range_iff, Bound.isBelow_exclusive_iff,
      Bound.isAbove, and_true]
  | ge =>
    simp only [Holds, ← hrelates, NativeQuery.accepts_range_iff, Bound.isBelow_inclusive_iff,
      Bound.isAbove, and_true]
  | lt =>
    simp only [Holds, ← hrelates, NativeQuery.accepts_range_iff, Bound.isAbove_exclusive_iff,
      Bound.isBelow, true_and]
  | le =>
    simp only [Holds, ← hrelates, NativeQuery.accepts_range_iff, Bound.isAbove_inclusive_iff,
      Bound.isBelow, true_and]

omit hindexable hconforms in
theorem nativeBound_isBelow {inclusive : Bool} {end? : Option String} {bound : Bound}
    (h : nativeBound schema field inclusive end? = .ok bound) {v : FieldValue} {s : String}
    (htype : v.fieldType = schema.typeOf field) (hv : v.term = .ok s) :
    bound.isBelow s = true ↔
      ∀ raw ∈ end?, Compares schema field (if inclusive then .ge else .gt) raw v := by
  cases end? with
  | none =>
    cases h
    simp [Bound.isBelow]
  | some raw =>
    simp only [nativeBound, Outcome.bind_ok, Outcome.pure_ok] at h
    obtain ⟨term, hterm, rfl⟩ := h
    simp only [Option.mem_some_iff, forall_eq', compares_iff _ hterm htype hv]
    cases inclusive with
    | false => exact Bound.isBelow_exclusive_iff
    | true => exact Bound.isBelow_inclusive_iff

omit hindexable hconforms in
theorem nativeBound_isAbove {inclusive : Bool} {end? : Option String} {bound : Bound}
    (h : nativeBound schema field inclusive end? = .ok bound) {v : FieldValue} {s : String}
    (htype : v.fieldType = schema.typeOf field) (hv : v.term = .ok s) :
    bound.isAbove s = true ↔
      ∀ raw ∈ end?, Compares schema field (if inclusive then .le else .lt) raw v := by
  cases end? with
  | none =>
    cases h
    simp [Bound.isAbove]
  | some raw =>
    simp only [nativeBound, Outcome.bind_ok, Outcome.pure_ok] at h
    obtain ⟨term, hterm, rfl⟩ := h
    simp only [Option.mem_some_iff, forall_eq', compares_iff _ hterm htype hv]
    cases inclusive with
    | false => exact Bound.isAbove_exclusive_iff
    | true => exact Bound.isAbove_inclusive_iff

theorem nativeRange_holds {lower upper : Option String} {inclusive : Bool}
    (h : nativeRange schema field lower upper inclusive = .ok native) :
    native.accepts doc = true ↔ Holds schema docs doc (.range field lower upper inclusive) := by
  simp only [nativeRange] at h
  split at h
  · rename_i hends
    rw [Bool.and_eq_true, Option.isNone_iff_eq_none, Option.isNone_iff_eq_none] at hends
    obtain ⟨rfl, rfl⟩ := hends
    obtain rfl := Outcome.pure_ok.mp h
    simp [Holds, NativeQuery.accepts_present_iff, List.eq_nil_iff_forall_not_mem]
  · simp only [Outcome.bind_ok, Outcome.pure_ok] at h
    obtain ⟨low, hlow, up, hup, rfl⟩ := h
    simp only [Holds]
    rw [NativeQuery.accepts_range_iff]
    refine exists_congr fun v => and_congr_right fun hv => ?_
    obtain ⟨s, hs⟩ := hindexable field v hv
    rw [← nativeBound_isBelow hlow (hconforms field v hv) hs,
      ← nativeBound_isAbove hup (hconforms field v hv) hs]
    constructor
    · rintro ⟨s', hs', hbounds⟩
      rwa [Except.ok.inj (hs.symm.trans hs')]
    · exact fun hbounds => ⟨s, hs, hbounds⟩

-- ---------------------------------------------------------------------------
-- Text
-- ---------------------------------------------------------------------------

omit hindexable hconforms in
theorem requireText_ok {kind : String} {u : Unit} (h : requireText schema field kind = .ok u) :
    schema.typeOf field = .text := by
  rw [requireText] at h
  split at h
  · assumption
  · cases h

omit hindexable in
/-- The terms of a text field are its values. -/
theorem exists_text_iff (htext : schema.typeOf field = .text) {P : String → Prop} :
    (∃ v ∈ doc.valuesOf field, ∃ term, v.term = .ok term ∧ P term) ↔
      ∃ s, .text s ∈ doc.valuesOf field ∧ P s := by
  constructor
  · rintro ⟨v, hv, term, hterm, hP⟩
    have htype := (hconforms field v hv).trans htext
    cases v with
    | text s =>
      obtain rfl := Except.ok.inj hterm
      exact ⟨s, hv, hP⟩
    | _ => cases htype
  · rintro ⟨s, hs, hP⟩
    exact ⟨.text s, hs, s, rfl, hP⟩

omit hindexable in
theorem accepts_term_iff_text (htext : schema.typeOf field = .text) {s : String} :
    NativeQuery.accepts doc (.term field s) = true ↔ .text s ∈ doc.valuesOf field := by
  rw [NativeQuery.accepts, Document.any_termsIn_iff, exists_text_iff hconforms htext]
  simp

omit hindexable in
theorem nativeStartsWith_holds {stem : String} {inverted : Bool}
    (h : nativeStartsWith schema field stem inverted = .ok native) :
    native.accepts doc = true ↔ Holds schema docs doc (.startsWith field stem inverted) := by
  simp only [nativeStartsWith, Outcome.bind_ok, Outcome.pure_ok] at h
  obtain ⟨_, htext, rfl⟩ := h
  refine NativeQuery.accepts_inverted_iff ?_
  rw [NativeQuery.accepts, Document.any_termsIn_iff,
    exists_text_iff hconforms (requireText_ok htext)]
  simp only [List.isPrefixOf_iff_prefix]

omit hindexable in
theorem nativeWildcard_holds {pattern : String}
    (h : nativeWildcard schema field pattern = .ok native) :
    native.accepts doc = true ↔ Holds schema docs doc (.wildcard field pattern) := by
  simp only [nativeWildcard, Outcome.bind_ok, Outcome.pure_ok] at h
  obtain ⟨_, htext, rfl⟩ := h
  simp only [NativeQuery.accepts, Document.any_termsIn_iff, decide_eq_true_eq]
  exact exists_text_iff hconforms (requireText_ok htext)

-- ---------------------------------------------------------------------------
-- Resource types and vocabularies
-- ---------------------------------------------------------------------------

omit hindexable in
theorem nativeResourceType_holds (hreserved : schema.KeepsReserved) {name : String}
    {operator : TypeOperator} (h : nativeResourceType schema name operator = .ok native) :
    native.accepts doc = true ↔ Holds schema docs doc (.resourceType name operator) := by
  have hdirect (s : String) :=
    accepts_term_iff_text hconforms hreserved.typeOf_resourceType (s := s)
  have hexpanded : NativeQuery.accepts doc (.disj
      ((name :: schema.typeTree.descendants name).map (.term Field.resourceType))) = true ↔
        IsA schema doc name := by
    simp only [NativeQuery.accepts_disj_iff, List.mem_map, exists_exists_and_eq_and,
      Vocabulary.mem_cons_descendants_iff, hdirect]
    rfl
  simp only [nativeResourceType] at h
  cases operator with
  | eq =>
    cases h
    exact hdirect name
  | ne =>
    cases h
    exact NativeQuery.accepts_neg_iff.trans (not_congr (hdirect name))
  | isA =>
    simp only at h
    split at h
    · cases h
      exact hexpanded
    · cases h
  | isNotA =>
    simp only at h
    split at h
    · cases h
      exact NativeQuery.accepts_neg_iff.trans (not_congr hexpanded)
    · cases h

theorem accepts_expanded_iff {vocabulary : Vocabulary}
    (hvocabulary : schema.vocabulary? field = some vocabulary) {terms : List String}
    (hterms : (raw :: vocabulary.descendants raw).mapM (literalTerm schema field) = .ok terms) :
    NativeQuery.accepts doc (.disj (terms.map (.term field))) = true ↔
      HasBelow schema doc field raw := by
  have hmem (term : String) : term ∈ terms ↔ ∃ below,
      Relation.ReflTransGen vocabulary.IsChild raw below ∧
        literalTerm schema field below = .ok term := by
    rw [← List.mem_map_of_injective (f := Except.ok (ε := Error)) fun _ _ => Except.ok.inj]
    simp only [← Outcome.mapM_ok.mp hterms, List.mem_map, Vocabulary.mem_cons_descendants_iff]
  have hterm (below : String) (hbelow : Relation.ReflTransGen vocabulary.IsChild raw below) :
      ∃ term, literalTerm schema field below = .ok term :=
    Outcome.ok_of_mapM_ok hterms (Vocabulary.mem_cons_descendants_iff.mpr hbelow)
  simp only [NativeQuery.accepts_disj_iff, List.mem_map, exists_exists_and_eq_and, hmem, HasBelow,
    hvocabulary, Option.some.injEq, exists_eq_left']
  constructor
  · rintro ⟨term, ⟨below, hbelow, hliteral⟩, haccepts⟩
    exact ⟨below, hbelow, (accepts_term_iff_hasLiteral hindexable hconforms hliteral).mp haccepts⟩
  · rintro ⟨below, hbelow, hhas⟩
    obtain ⟨term, hliteral⟩ := hterm below hbelow
    exact ⟨term, ⟨below, hbelow, hliteral⟩,
      (accepts_term_iff_hasLiteral hindexable hconforms hliteral).mpr hhas⟩

theorem nativeMembership_holds {operator : MembershipOperator}
    (h : nativeMembership schema field operator raw = .ok native) :
    native.accepts doc = true ↔ Holds schema docs doc (.membership field operator raw) := by
  simp only [nativeMembership] at h
  split at h
  · cases h
  · rename_i vocabulary hvocabulary
    simp only [Outcome.bind_ok, Outcome.pure_ok] at h
    obtain ⟨terms, hterms, rfl⟩ := h
    have hvocabulary := (Option.filter_eq_some_iff.mp hvocabulary).1
    have hexpanded := accepts_expanded_iff hindexable hconforms hvocabulary hterms
    cases operator with
    | within => exact hexpanded
    | outside =>
      simp only [Holds]
      rw [NativeQuery.accepts_presentButNot_iff, hexpanded]

-- ---------------------------------------------------------------------------
-- Numbers and uris
-- ---------------------------------------------------------------------------

omit hindexable in
theorem accepts_term_iff_int32 (hint : schema.typeOf field = .int32) {n : Int32} :
    NativeQuery.accepts doc (.term field (Term.ofInt32 n)) = true ↔
      .int32 n ∈ doc.valuesOf field :=
  NativeQuery.accepts_ofInt32_iff fun v hv => (hconforms field v hv).trans hint

omit hindexable in
theorem nativeUriDepth_holds (hreserved : schema.KeepsReserved) {depth : Nat}
    (h : nativeUriDepth depth = .ok native) :
    native.accepts doc = true ↔ Holds schema docs doc (.uriDepth depth) := by
  rw [nativeUriDepth] at h
  split at h
  · rename_i hdepth
    cases h
    have hint : (Int32.ofNat depth).toInt = depth := Int32.toInt_ofNat_of_lt hdepth
    rw [accepts_term_iff_int32 hconforms hreserved.typeOf_depth]
    constructor
    · exact fun hmem => ⟨_, hmem, hint⟩
    · rintro ⟨n, hn, heq⟩
      rwa [Int32.toInt_inj.mp (heq.trans hint.symm)] at hn
  · cases h

end Leaves

end Query

end GuardedSearch
