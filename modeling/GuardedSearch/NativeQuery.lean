import GuardedSearch.DocSet

/-!
# Native queries

The query form that an index evaluates. Literals are index terms, so bounds compare as text.
-/

namespace GuardedSearch

inductive Bound where
  | inclusive (term : String)
  | exclusive (term : String)
  | unbounded
deriving DecidableEq, Repr

namespace Bound

/-- Whether `term` is on the upper side of this lower end. -/
def admitsFromBelow : Bound → String → Bool
  | inclusive bound, term => decide (¬ term < bound)
  | exclusive bound, term => decide (bound < term)
  | unbounded, _ => true

/-- Whether `term` is on the lower side of this upper end. -/
def admitsFromAbove : Bound → String → Bool
  | inclusive bound, term => decide (¬ bound < term)
  | exclusive bound, term => decide (term < bound)
  | unbounded, _ => true

end Bound

/-- The documents that have a term matching a wildcard pattern. A shared filter has a cell, in
which the set that was found first is kept; a filter without one is evaluated each time. -/
structure WildcardFilter where
  field : String
  pattern : String
  cell : Option Nat
deriving DecidableEq, Repr

namespace WildcardFilter

def fresh (field pattern : String) : WildcardFilter := ⟨field, pattern, none⟩

/-- Filters are alike when they match the same, whatever their cells hold. -/
instance : BEq WildcardFilter := ⟨fun f g => f.field == g.field && f.pattern == g.pattern⟩

end WildcardFilter

inductive NativeQuery where
  | all
  | none
  | term (field value : String)
  | startsWith (field stem : String)
  | range (field : String) (lower upper : Bound)
  | present (field : String)
  | wildcard (filter : WildcardFilter)
  /-- What all of `must` match, and one of `should` if there are any, without what one of
  `mustNot` matches. Without `must` and `should` nothing matches. -/
  | bool (must should mustNot : List NativeQuery)
deriving Inhabited

namespace NativeQuery

def conj : List NativeQuery → NativeQuery
  | [] => all
  | [clause] => clause
  | clauses => bool clauses [] []

def disj : List NativeQuery → NativeQuery
  | [] => none
  | [clause] => clause
  | clauses => bool [] clauses []

/-- Every document that does not match. -/
def neg (query : NativeQuery) : NativeQuery := bool [all] [] [query]

/-- The documents that have the field and do not match. -/
def presentButNot (field : String) (query : NativeQuery) : NativeQuery :=
  bool [present field] [] [query]

mutual

/-- Whether two queries are alike, clause by clause; filters are compared by what they match. -/
def beq : NativeQuery → NativeQuery → Bool
  | all, all => true
  | none, none => true
  | term f v, term g w => f == g && v == w
  | startsWith f v, startsWith g w => f == g && v == w
  | range f l u, range g m w => f == g && l == m && u == w
  | present f, present g => f == g
  | wildcard f, wildcard g => f == g
  | bool a b c, bool a' b' c' => beqList a a' && beqList b b' && beqList c c'
  | _, _ => false

def beqList : List NativeQuery → List NativeQuery → Bool
  | [], [] => true
  | q :: qs, r :: rs => beq q r && beqList qs rs
  | _, _ => false

end

instance : BEq NativeQuery := ⟨beq⟩

end NativeQuery

structure FilterCache where
  found : List (Nat × DocSet)
deriving DecidableEq, Repr

namespace FilterCache

def empty : FilterCache := ⟨[]⟩

def get? (cache : FilterCache) (filter : WildcardFilter) : Option DocSet :=
  filter.cell.bind fun cell => cache.found.lookup cell

def isComputed (cache : FilterCache) (filter : WildcardFilter) : Bool :=
  (cache.get? filter).isSome

/-- The set in a filter's cell; an empty cell takes the set found now and keeps it. -/
def keepFirst (cache : FilterCache) (filter : WildcardFilter) (found : DocSet) :
    DocSet × FilterCache :=
  match cache.get? filter with
  | some first => (first, cache)
  | none =>
    match filter.cell with
    | some cell => (found, ⟨(cell, found) :: cache.found⟩)
    | none => (found, cache)

end FilterCache

end GuardedSearch
