import GuardedSearch.Proofs.RecordForms
import GuardedSearch.Serialized.Requests

/-!
# Forms of queries and requests

Queries and requests are read back from their forms: queries that nest no deeper than a reader
follows and whose counts are machine words, as all queries are that have been read.
-/

namespace GuardedSearch

open Json

-- ---------------------------------------------------------------------------
-- Clauses
-- ---------------------------------------------------------------------------

namespace Query

/-- The query has no clauses of its own. -/
def IsLeaf : Query → Prop
  | conj _ | disj _ => False
  | _ => True

/-- The query is the conjunction or the disjunction of the clauses. -/
inductive Joins (clauses : List Query) : Query → Prop where
  | conj : Joins clauses (conj clauses)
  | disj : Joins clauses (disj clauses)

theorem Joins.unique {clauses others : List Query} {q : Query} (h : Joins clauses q)
    (hothers : Joins others q) : clauses = others := by
  cases h <;> cases hothers <;> rfl

theorem Joins.not_isLeaf {clauses : List Query} {q : Query} (h : Joins clauses q) :
    ¬ q.IsLeaf := by
  cases h <;> exact id

/-- What holds of leaves, and of a query if it holds of its clauses, holds of all queries. -/
@[elab_as_elim]
theorem induction_clauses {P : Query → Prop} (leaf : ∀ q, q.IsLeaf → P q)
    (joint : ∀ q clauses, Joins clauses q → (∀ c ∈ clauses, P c) → P q) : (q : Query) → P q
  | .conj clauses => joint _ clauses .conj fun c _ => induction_clauses leaf joint c
  | .disj clauses => joint _ clauses .disj fun c _ => induction_clauses leaf joint c
  | .term .. | .startsWith .. | .range .. | .wildcard .. | .present .. | .subtree ..
  | .uriDepth .. | .resourceType .. | .membership .. => leaf _ trivial

mutual

/-- The depths that the query asks for are machine words. -/
def IsSized : Query → Prop
  | uriDepth depth => depth < Word.size32
  | conj clauses | disj clauses => AreSized clauses
  | _ => True

def AreSized : List Query → Prop
  | [] => True
  | query :: rest => IsSized query ∧ AreSized rest

end

theorem areSized_iff {clauses : List Query} : AreSized clauses ↔ ∀ c ∈ clauses, c.IsSized := by
  induction clauses with
  | nil => simp [AreSized]
  | cons query rest ih => rw [AreSized, ih, List.forall_mem_cons]

theorem toJsonList_eq_map (clauses : List Query) : toJsonList clauses = clauses.map toJson := by
  induction clauses with
  | nil => rfl
  | cons query rest ih => rw [toJsonList, ih, List.map_cons]

theorem ofItems?_eq_mapM (room : Nat) (items : List Json) :
    ofItems? room items = items.mapM (ofJsonWithin? room) := by
  induction items with
  | nil => rfl
  | cons item rest ih => rw [ofItems?, ih, List.mapM_cons]

-- ---------------------------------------------------------------------------
-- Queries without clauses
-- ---------------------------------------------------------------------------

/-- A leaf is written as a case with members that open nothing, and is read of them. -/
structure LeafForm (q : Query) (name : String) (members : List (String × Json)) : Prop where
  written : q.toJson = caseToJson name members
  isCase : name ≠ "And" ∧ name ≠ "Or"
  opens : ∀ m ∈ members, m.2.OpensNothing
  read : q.IsSized → ∀ room, leafOfJson? (room + 1) name (.object members) = some q

/-- Stated of any content that is read as the depth: what a number is compared with is too large
to be computed. -/
theorem leafOfJson?_uriDepth {content : Json} {depth : Nat} (room : Nat)
    (h : nat? Word.size32 content = some depth) :
    leafOfJson? (room + 1) "UriDepth" (.object [("depth", content)]) = some (uriDepth depth) := by
  change (nat? Word.size32 content).bind _ = _
  rw [h]
  rfl

theorem IsLeaf.form {q : Query} (h : q.IsLeaf) : ∃ name members, LeafForm q name members := by
  cases q with
  | term field operator value =>
    refine ⟨"Term", _, rfl, by decide,
      by simp [TermOperator.toJson, Names.toJson, OpensNothing], fun _ room => ?_⟩
    change (TermOperator.names.ofJson? (TermOperator.names.toJson operator)).bind _ = _
    rw [Names.ofJson?_toJson]
    rfl
  | startsWith field stem inverted =>
    exact ⟨"Prefix", _, rfl, by decide, by simp [OpensNothing], fun _ _ => rfl⟩
  | range field lower upper inclusive =>
    have hend : ∀ bound, (ofOption .string bound).OpensNothing :=
      ofOption_opensNothing fun _ => trivial
    refine ⟨"Range", _, rfl, by decide, ?_, fun _ _ => ?_⟩
    · simp only [List.forall_mem_cons, hend]
      simp [OpensNothing]
    cases lower <;> cases upper <;> rfl
  | wildcard field pattern =>
    exact ⟨"Wildcard", _, rfl, by decide, by simp [OpensNothing], fun _ _ => rfl⟩
  | present field =>
    exact ⟨"Exists", _, rfl, by decide, by simp [OpensNothing], fun _ _ => rfl⟩
  | subtree uri inverted =>
    exact ⟨"UriPrefix", _, rfl, by decide, by simp [OpensNothing], fun _ _ => rfl⟩
  | uriDepth depth =>
    exact ⟨"UriDepth", _, rfl, by decide, by simp [OpensNothing], fun hsized room =>
      leafOfJson?_uriDepth room (nat?_ofNat hsized)⟩
  | resourceType type operator =>
    refine ⟨"TypeTerm", _, rfl, by decide,
      by simp [TypeOperator.toJson, Names.toJson, OpensNothing], fun _ room => ?_⟩
    change (TypeOperator.names.ofJson? (TypeOperator.names.toJson operator)).bind _ = _
    rw [Names.ofJson?_toJson]
    rfl
  | membership field operator value =>
    refine ⟨"VocabularyMembership", _, rfl, by decide,
      by simp [MembershipOperator.toJson, Names.toJson, OpensNothing], fun _ room => ?_⟩
    change (MembershipOperator.names.ofJson? (MembershipOperator.names.toJson operator)).bind _ = _
    rw [Names.ofJson?_toJson]
    rfl
  | conj clauses => exact h.elim
  | disj clauses => exact h.elim

/-- A record is read of what a reader gets into. -/
theorem pos_of_record? {room : Nat} {j content : Json} {keys : List String}
    {members : List (Option Json)} (hinside : inside? room j = some content)
    (hrecord : record? keys content = some members) : 0 < room := by
  cases j with
  | array _ | object _ =>
    by_contra hroom
    rw [inside?, if_neg hroom] at hinside
    cases hinside
  | _ =>
    obtain rfl := Option.some.inj hinside
    cases hrecord

theorem isLeaf_of_leafOfJson? {room : Nat} {name : String} {j : Json} {q : Query}
    (h : leafOfJson? room name j = some q) : 0 < room ∧ q.IsLeaf ∧ q.IsSized := by
  obtain ⟨content, hinside, h⟩ := Option.bind_eq_some_iff.mp h
  split at h
  -- no other name is that of a leaf
  case h_10 => cases h
  all_goals
    obtain ⟨members, hrecord, h⟩ := Option.bind_eq_some_iff.mp h
    refine ⟨pos_of_record? hinside hrecord, ?_⟩
    split at h
    case h_2 => cases h
    simp only [Option.bind_eq_bind, Option.bind_eq_some_iff, Option.pure_def, Option.some_inj] at h
    grind [IsLeaf, IsSized, lt_of_nat?]

-- ---------------------------------------------------------------------------
-- Queries with clauses
-- ---------------------------------------------------------------------------

theorem Joins.isSized_iff {clauses : List Query} {q : Query} (h : Joins clauses q) :
    q.IsSized ↔ ∀ c ∈ clauses, c.IsSized := by
  cases h <;> rw [IsSized, areSized_iff]

/-- A query with clauses is written as a list of them, of which it is read. -/
theorem Joins.form {clauses : List Query} {q : Query} (h : Joins clauses q) :
    ∃ name, q.toJson = choice name (.array (clauses.map toJson)) ∧
      ∀ {room : Nat} {content : Json}, clausesOfJson? room content = some clauses →
        ofMember? room (name, content) = some q := by
  cases h with
  | conj =>
    refine ⟨"And", by rw [toJson, toJsonList_eq_map], fun hclauses => ?_⟩
    rw [ofMember?, if_pos rfl, hclauses]
    rfl
  | disj =>
    refine ⟨"Or", by rw [toJson, toJsonList_eq_map], fun hclauses => ?_⟩
    rw [ofMember?, if_neg (by decide), if_pos rfl, hclauses]
    rfl

/-- Clauses are read inside of the bracket that opens their list. -/
theorem clausesOfJson?_succ (room : Nat) (j : Json) :
    clausesOfJson? (room + 1) j = list? (ofJsonWithin? room) j := by
  cases j with
  | array items =>
    rw [clausesOfJson?, if_pos (Nat.succ_pos room), Nat.add_sub_cancel, ofItems?_eq_mapM, list?]
  | _ => rfl

theorem clausesOfJson?_zero (j : Json) : clausesOfJson? 0 j = none := by
  cases j <;> rfl

theorem ofJsonWithin?_choice (room : Nat) (name : String) (content : Json) :
    ofJsonWithin? (room + 1) (choice name content) = ofMember? room (name, content) := by
  rw [choice, ofJsonWithin?, if_pos (Nat.succ_pos room), Nat.add_sub_cancel, ofMembers?]

theorem ofJsonWithin?_cases {room : Nat} {j : Json} {q : Query}
    (h : ofJsonWithin? room j = some q) :
    ∃ inner m, room = inner + 1 ∧ ofMember? inner m = some q := by
  cases j with
  | object members =>
    rw [ofJsonWithin?] at h
    split at h
    · next hroom =>
      cases members with
      | nil => cases h
      | cons m rest =>
        cases rest with
        | nil => exact ⟨room - 1, m, (Nat.sub_add_cancel hroom).symm, h⟩
        | cons => cases h
    · cases h
  | _ => cases h

theorem ofMember?_cases {room : Nat} {m : String × Json} {q : Query}
    (h : ofMember? room m = some q) :
    (∃ clauses, Joins clauses q ∧ clausesOfJson? room m.2 = some clauses) ∨
      leafOfJson? room m.1 m.2 = some q := by
  rw [ofMember?] at h
  split at h
  · obtain ⟨clauses, hclauses, rfl⟩ := Option.map_eq_some_iff.mp h
    exact .inl ⟨clauses, .conj, hclauses⟩
  · split at h
    · obtain ⟨clauses, hclauses, rfl⟩ := Option.map_eq_some_iff.mp h
      exact .inl ⟨clauses, .disj, hclauses⟩
    · exact .inr h

-- ---------------------------------------------------------------------------
-- Reading what is written
-- ---------------------------------------------------------------------------

theorem LeafForm.depth {q : Query} {name : String} {members : List (String × Json)}
    (form : LeafForm q name members) : q.toJson.depth = 2 := by
  have hmembers : depthOfMembers members ≤ 0 :=
    depthOfMembers_le_iff.mpr fun m hm => (form.opens m hm).depth_le
  rw [form.written, caseToJson, depth_choice, Json.depth, Nat.le_zero.mp hmembers]

theorem toJson_isPlain (q : Query) : q.toJson.IsPlain := by
  induction q using induction_clauses with
  | leaf q hleaf =>
    obtain ⟨name, members, form⟩ := hleaf.form
    have hmembers : MembersArePlain members :=
      membersArePlain_iff.mpr fun m hm => (form.opens m hm).isPlain
    rw [form.written]
    exact ⟨hmembers, trivial⟩
  | joint q clauses hq ih =>
    obtain ⟨name, hwritten, -⟩ := hq.form
    have hclauses : ArePlain (clauses.map toJson) := arePlain_iff.mpr (List.forall_mem_map.mpr ih)
    rw [hwritten]
    exact ⟨hclauses, trivial⟩

theorem Joins.depth {clauses : List Query} {q : Query} (h : Joins clauses q) :
    q.toJson.depth = depthOfItems (clauses.map toJson) + 2 := by
  obtain ⟨name, hwritten, -⟩ := h.form
  rw [hwritten, depth_choice, Json.depth]

/-- A query that nests no deeper than a reader follows is read back from its form. -/
theorem ofJsonWithin?_toJson {q : Query} {room : Nat} (hsized : q.IsSized)
    (hdepth : q.toJson.depth ≤ room) : ofJsonWithin? room q.toJson = some q := by
  induction q using induction_clauses generalizing room with
  | leaf q hleaf =>
    obtain ⟨name, members, form⟩ := hleaf.form
    rw [form.depth] at hdepth
    obtain ⟨inner, rfl⟩ : ∃ inner, room = inner + 1 + 1 := ⟨room - 2, by omega⟩
    rw [form.written, caseToJson, ofJsonWithin?_choice, ofMember?, if_neg form.isCase.1,
      if_neg form.isCase.2, form.read hsized]
  | joint q clauses hq ih =>
    obtain ⟨name, hwritten, hread⟩ := hq.form
    rw [hq.depth] at hdepth
    obtain ⟨inner, rfl⟩ : ∃ inner, room = inner + 1 + 1 := ⟨room - 2, by omega⟩
    have hdepths : ∀ item ∈ clauses.map toJson, item.depth ≤ inner :=
      depthOfItems_le_iff.mp (by omega)
    have hclauses : clausesOfJson? (inner + 1) (.array (clauses.map toJson)) = some clauses := by
      rw [clausesOfJson?_succ]
      exact list?_map fun c hc => ih c hc (hq.isSized_iff.mp hsized c hc)
        (hdepths _ (List.mem_map_of_mem hc))
    rw [hwritten, ofJsonWithin?_choice, hread hclauses]

/-- A query that has been read nests no deeper than its reader follows. -/
theorem fits_of_ofJsonWithin? {room : Nat} {j : Json} {q : Query}
    (h : ofJsonWithin? room j = some q) : q.IsSized ∧ q.toJson.depth ≤ room := by
  -- on the query, since one query has many spellings
  induction q using induction_clauses generalizing room j with
  | leaf q hleaf =>
    obtain ⟨inner, m, rfl, hmember⟩ := ofJsonWithin?_cases h
    rcases ofMember?_cases hmember with ⟨clauses, hq, -⟩ | hread
    · exact absurd hleaf hq.not_isLeaf
    · obtain ⟨hpos, -, hsized⟩ := isLeaf_of_leafOfJson? hread
      obtain ⟨name, members, form⟩ := hleaf.form
      have hdepth := form.depth
      exact ⟨hsized, by omega⟩
  | joint q clauses hq ih =>
    obtain ⟨inner, m, rfl, hmember⟩ := ofJsonWithin?_cases h
    rcases ofMember?_cases hmember with ⟨others, hothers, hclauses⟩ | hread
    · obtain rfl := hq.unique hothers
      cases inner with
      | zero =>
        rw [clausesOfJson?_zero] at hclauses
        cases hclauses
      | succ inner =>
        rw [clausesOfJson?_succ] at hclauses
        have hfits : ∀ c ∈ clauses, c.IsSized ∧ c.toJson.depth ≤ inner := fun c hc =>
          have ⟨_, hitem⟩ := read_of_mem_list? hclauses c hc
          ih c hc hitem
        have hdepths : depthOfItems (clauses.map toJson) ≤ inner :=
          depthOfItems_le_iff.mpr (List.forall_mem_map.mpr fun c hc => (hfits c hc).2)
        refine ⟨hq.isSized_iff.mpr fun c hc => (hfits c hc).1, ?_⟩
        rw [hq.depth]
        omega
    · exact absurd (isLeaf_of_leafOfJson? hread).2.1 hq.not_isLeaf

end Query

-- ---------------------------------------------------------------------------
-- Requests
-- ---------------------------------------------------------------------------

namespace SortField

theorem depth_le (f : SortField) : f.toJson.depth ≤ 1 := Nat.le_refl 1

theorem toJson_isPlain (f : SortField) : f.toJson.IsPlain := ⟨trivial, trivial, trivial⟩

theorem ofJson?_toJson (f : SortField) : ofJson? f.toJson = some f := by
  change (SortOrder.names.ofJson? (SortOrder.names.toJson f.order)).bind _ = _
  rw [Names.ofJson?_toJson]
  rfl

end SortField

namespace Sorting

theorem depth_le (s : Sorting) : s.toJson.depth ≤ 3 := by
  have hfields : depthOfItems (s.fields.map SortField.toJson) ≤ 1 :=
    depthOfItems_le_iff.mpr (List.forall_mem_map.mpr fun f _ => f.depth_le)
  simp only [toJson, depth, depthOfMembers]
  omega

theorem toJson_isPlain (s : Sorting) : s.toJson.IsPlain :=
  ⟨arePlain_map SortField.toJson_isPlain s.fields, trivial⟩

theorem ofJson?_toJson (s : Sorting) : ofJson? s.toJson = some s := by
  have hfields : list? SortField.ofJson? (.array (s.fields.map SortField.toJson)) =
      some s.fields := list?_map fun f _ => f.ofJson?_toJson
  rw [toJson]
  change (list? SortField.ofJson? (.array (s.fields.map SortField.toJson))).bind _ = _
  rw [hfields]
  rfl

end Sorting

namespace PropertySelect

theorem depth_le (s : PropertySelect) : s.toJson.depth ≤ 2 := by
  cases s with
  | all | none => exact Nat.zero_le 2
  | named names =>
    have hnames : depthOfItems (names.keys.map .string) ≤ 0 :=
      depthOfItems_le_iff.mpr (List.forall_mem_map.mpr fun _ _ => Nat.le_refl 0)
    rw [toJson, depth_choice, depth]
    omega

theorem toJson_isPlain (s : PropertySelect) : s.toJson.IsPlain := by
  cases s with
  | all | none => trivial
  | named names =>
    have hname : ∀ name, (Json.string name).IsPlain := fun _ => trivial
    exact ⟨arePlain_map hname names.keys, trivial⟩

theorem ofJson?_toJson (s : PropertySelect) : ofJson? s.toJson = some s := by
  cases s with
  | all | none => rfl
  | named names =>
    have hnames : list? string? (.array (names.keys.map .string)) = some names.keys :=
      list?_map fun _ _ => rfl
    change (list? string? (.array (names.keys.map .string))).map _ = _
    rw [hnames, Option.map_some, Table.ofNames_keys]

end PropertySelect

namespace SearchRequest

theorem ofJson?_eq_some_iff {j : Json} {r : SearchRequest} : ofJson? j = some r ↔
    ∃ query limit cursor sorting select,
      record? ["query", "limit", "cursor", "sorting", "select"] j =
        some [some query, some limit, some cursor, some sorting, some select] ∧
      Query.ofJsonWithin? (Query.deepest - 1) query = some r.query ∧
      limit.count? = some r.limit ∧ cursor.count? = some r.cursor ∧
      Sorting.ofJson? sorting = some r.sorting ∧
      PropertySelect.ofJson? select = some r.select := by
  constructor
  · intro h
    obtain ⟨members, hrecord, h⟩ := Option.bind_eq_some_iff.mp h
    split at h
    · next query limit cursor sorting select =>
      simp only [Option.bind_eq_bind, Option.bind_eq_some_iff, Option.pure_def,
        Option.some_inj] at h
      obtain ⟨_, hquery, _, hlimit, _, hcursor, _, hsorting, _, hselect, rfl⟩ := h
      exact ⟨query, limit, cursor, sorting, select, hrecord, hquery, hlimit, hcursor, hsorting,
        hselect⟩
    · cases h
  · rintro ⟨query, limit, cursor, sorting, select, hrecord, hquery, hlimit, hcursor, hsorting,
      hselect⟩
    rw [ofJson?, hrecord]
    simp only [hquery, hlimit, hcursor, hsorting, hselect, Option.bind_eq_bind, Option.bind_some,
      Option.pure_def]

/-- All counts of the request are machine words. -/
structure IsSized (r : SearchRequest) : Prop where
  query : r.query.IsSized
  limit : r.limit < Word.size64
  cursor : r.cursor < Word.size64

theorem toJson_isPlain (r : SearchRequest) : r.toJson.IsPlain :=
  ⟨r.query.toJson_isPlain, trivial, trivial, r.sorting.toJson_isPlain, r.select.toJson_isPlain,
    trivial⟩

/-- A request that nests no deeper than a reader follows is read back from its form. -/
theorem ofJson?_toJson {r : SearchRequest} (hsized : r.IsSized)
    (hdepth : r.toJson.depth ≤ Query.deepest) : ofJson? r.toJson = some r := by
  have hrecord := record?_members [("query", r.query.toJson), ("limit", .int r.limit),
    ("cursor", .int r.cursor), ("sorting", r.sorting.toJson), ("select", r.select.toJson)]
    (by simp)
  have hquery : r.query.toJson.depth ≤ Query.deepest - 1 := by
    rw [toJson, depth, depthOfMembers] at hdepth
    omega
  exact ofJson?_eq_some_iff.mpr ⟨_, _, _, _, _, hrecord,
    Query.ofJsonWithin?_toJson hsized.query hquery, nat?_ofNat hsized.limit,
    nat?_ofNat hsized.cursor, r.sorting.ofJson?_toJson, r.select.ofJson?_toJson⟩

/-- A request that has been read nests no deeper than its reader follows. -/
theorem fits_of_ofJson? {j : Json} {r : SearchRequest} (h : ofJson? j = some r) :
    r.IsSized ∧ r.toJson.depth ≤ Query.deepest := by
  obtain ⟨_, _, _, _, _, -, hquery, hlimit, hcursor, -, -⟩ := ofJson?_eq_some_iff.mp h
  obtain ⟨hsized, hdepth⟩ := Query.fits_of_ofJsonWithin? hquery
  refine ⟨⟨hsized, lt_of_nat? hlimit, lt_of_nat? hcursor⟩, ?_⟩
  have hsorting := r.sorting.depth_le
  have hselect := r.select.depth_le
  have hdeepest : Query.deepest = 127 := rfl
  simp only [toJson, depth, depthOfMembers]
  omega

end SearchRequest

end GuardedSearch
