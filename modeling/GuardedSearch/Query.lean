/-!
# Queries

What a caller asks for, in terms of fields and literals, independent of any engine.
-/

namespace GuardedSearch

inductive TermOperator where
  | eq
  | ne
  | gt
  | ge
  | lt
  | le
deriving DecidableEq, Repr

inductive TypeOperator where
  | eq
  | ne
  /-- The type or one below it. -/
  | isA
  | isNotA
deriving DecidableEq, Repr

inductive MembershipOperator where
  | within
  | outside
deriving DecidableEq, Repr

inductive Query where
  | term (field : String) (operator : TermOperator) (value : String)
  | startsWith (field stem : String) (inverted : Bool)
  /-- A range with optional ends, both inclusive or both exclusive. -/
  | range (field : String) (lower upper : Option String) (inclusive : Bool)
  /-- A pattern in which `*` stands for any text and `?` for one character. -/
  | wildcard (field pattern : String)
  | present (field : String)
  | subtree (uri : String) (inverted : Bool)
  | uriDepth (depth : Nat)
  | resourceType (name : String) (operator : TypeOperator)
  /-- A value of a field's vocabulary or one below it. -/
  | membership (field : String) (operator : MembershipOperator) (value : String)
  | conj (clauses : List Query)
  | disj (clauses : List Query)
deriving Inhabited

namespace Query

def kind : Query → String
  | term .. => "TermQuery"
  | startsWith .. => "PrefixQuery"
  | range .. => "RangeQuery"
  | wildcard .. => "WildcardQuery"
  | present .. => "ExistsQuery"
  | subtree .. => "UriPrefixQuery"
  | uriDepth .. => "UriDepthQuery"
  | resourceType .. => "TypeTermQuery"
  | membership .. => "VocabularyMembershipQuery"
  | conj .. => "AndQuery"
  | disj .. => "OrQuery"

end Query

inductive SortOrder where
  | asc
  | desc
deriving DecidableEq, Repr

structure SortField where
  field : String
  order : SortOrder
deriving DecidableEq, Repr

/-- Sort keys in priority order; without any, documents come in the order of their ordinals. -/
structure Sorting where
  fields : List SortField
deriving DecidableEq, Repr

namespace Sorting

def documentOrder : Sorting := ⟨[]⟩

def andThen (s : Sorting) (field : String) (order : SortOrder) : Sorting :=
  ⟨s.fields ++ [⟨field, order⟩]⟩

def isDocumentOrder (s : Sorting) : Bool := s.fields.isEmpty

end Sorting

end GuardedSearch
