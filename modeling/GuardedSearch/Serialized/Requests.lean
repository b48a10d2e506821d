import GuardedSearch.Json.Record
import GuardedSearch.Request

/-!
# Serialized requests and configurations

The JSON forms of queries, requests and configurations. A query may nest as deep as a reader
follows: to read it, at most 127 brackets and braces are opened inside each other.
-/

namespace GuardedSearch

open Json

namespace TermOperator

def names : Names TermOperator where
  all := [eq, ne, gt, ge, lt, le]
  name
    | eq => "Eq"
    | ne => "Ne"
    | gt => "Gt"
    | ge => "Ge"
    | lt => "Lt"
    | le => "Le"
  mem_all o := by cases o <;> decide
  nodup_name := by decide

def toJson : TermOperator → Json := names.toJson

def ofJson? : Json → Option TermOperator := names.ofJson?

end TermOperator

namespace TypeOperator

def names : Names TypeOperator where
  all := [eq, ne, isA, isNotA]
  name
    | eq => "Eq"
    | ne => "Ne"
    | isA => "IsA"
    | isNotA => "IsNotA"
  mem_all o := by cases o <;> decide
  nodup_name := by decide

def toJson : TypeOperator → Json := names.toJson

def ofJson? : Json → Option TypeOperator := names.ofJson?

end TypeOperator

namespace MembershipOperator

def names : Names MembershipOperator where
  all := [within, outside]
  name
    | within => "In"
    | outside => "Ni"
  mem_all o := by cases o <;> decide
  nodup_name := by decide

def toJson : MembershipOperator → Json := names.toJson

def ofJson? : Json → Option MembershipOperator := names.ofJson?

end MembershipOperator

namespace SortOrder

def names : Names SortOrder where
  all := [asc, desc]
  name
    | asc => "Asc"
    | desc => "Desc"
  mem_all o := by cases o <;> decide
  nodup_name := by decide

def toJson : SortOrder → Json := names.toJson

def ofJson? : Json → Option SortOrder := names.ofJson?

end SortOrder

namespace SortField

def toJson (f : SortField) : Json :=
  .object [("field", .string f.field), ("order", f.order.toJson)]

def ofJson? (j : Json) : Option SortField := do
  match ← record? ["field", "order"] j with
  | [some field, some order] => return ⟨← field.string?, ← SortOrder.ofJson? order⟩
  | _ => none

end SortField

namespace Sorting

def toJson (s : Sorting) : Json := .object [("fields", .array (s.fields.map SortField.toJson))]

def ofJson? (j : Json) : Option Sorting := do
  match ← record? ["fields"] j with
  | [some fields] => return ⟨← list? SortField.ofJson? fields⟩
  | _ => none

end Sorting

namespace PropertySelect

def toJson : PropertySelect → Json
  | all => .string "All"
  | none => .string "None"
  | named names => choice "Named" (.array (names.keys.map .string))

def ofJson? : Json → Option PropertySelect
  | .object [("Named", names)] => (list? string? names).map fun ns => named (NameSet.ofNames ns)
  | j => unitChoice? [("All", all), ("None", none)] j

end PropertySelect

namespace Query

def caseToJson (name : String) (members : List (String × Json)) : Json :=
  choice name (.object members)

mutual

def toJson : Query → Json
  | term field operator value => caseToJson "Term"
    [("field", .string field), ("operator", operator.toJson), ("value", .string value)]
  | startsWith field stem inverted => caseToJson "Prefix"
    [("field", .string field), ("prefix", .string stem), ("inverted", .bool inverted)]
  | range field lower upper inclusive => caseToJson "Range"
    [("field", .string field), ("from", ofOption .string lower), ("to", ofOption .string upper),
      ("inclusive", .bool inclusive)]
  | wildcard field pattern => caseToJson "Wildcard"
    [("field", .string field), ("pattern", .string pattern)]
  | present field => caseToJson "Exists" [("field", .string field)]
  | subtree uri inverted => caseToJson "UriPrefix"
    [("uri", .string uri), ("inverted", .bool inverted)]
  | uriDepth depth => caseToJson "UriDepth" [("depth", .int depth)]
  | resourceType name operator => caseToJson "TypeTerm"
    [("type_name", .string name), ("operator", operator.toJson)]
  | membership field operator value => caseToJson "VocabularyMembership"
    [("field", .string field), ("operator", operator.toJson), ("value", .string value)]
  | conj clauses => choice "And" (.array (toJsonList clauses))
  | disj clauses => choice "Or" (.array (toJsonList clauses))

def toJsonList : List Query → List Json
  | [] => []
  | query :: rest => toJson query :: toJsonList rest

end

/-- The query of a case without clauses of its own, if it opens at most `room` brackets and
braces inside each other. -/
def leafOfJson? (room : Nat) (name : String) (content : Json) : Option Query := do
  let content ← content.inside? room
  match name with
  | "Term" =>
    match ← record? ["field", "operator", "value"] content with
    | [some field, some operator, some value] =>
      let operator ← operator.inside? (room - 1)
      return term (← field.string?) (← TermOperator.ofJson? operator) (← value.string?)
    | _ => none
  | "Prefix" =>
    match ← record? ["field", "prefix", "inverted"] content with
    | [some field, some stem, some inverted] =>
      return startsWith (← field.string?) (← stem.string?) (← inverted.bool?)
    | _ => none
  | "Range" =>
    match ← record? ["field", "from", "to", "inclusive"] content with
    | [some field, lower, upper, some inclusive] =>
      return range (← field.string?) (← member? string? lower) (← member? string? upper)
        (← inclusive.bool?)
    | _ => none
  | "Wildcard" =>
    match ← record? ["field", "pattern"] content with
    | [some field, some pattern] => return wildcard (← field.string?) (← pattern.string?)
    | _ => none
  | "Exists" =>
    match ← record? ["field"] content with
    | [some field] => return present (← field.string?)
    | _ => none
  | "UriPrefix" =>
    match ← record? ["uri", "inverted"] content with
    | [some uri, some inverted] => return subtree (← uri.string?) (← inverted.bool?)
    | _ => none
  | "UriDepth" =>
    match ← record? ["depth"] content with
    | [some depth] => return uriDepth (← depth.nat? Word.size32)
    | _ => none
  | "TypeTerm" =>
    match ← record? ["type_name", "operator"] content with
    | [some name, some operator] =>
      let operator ← operator.inside? (room - 1)
      return resourceType (← name.string?) (← TypeOperator.ofJson? operator)
    | _ => none
  | "VocabularyMembership" =>
    match ← record? ["field", "operator", "value"] content with
    | [some field, some operator, some value] =>
      let operator ← operator.inside? (room - 1)
      return membership (← field.string?) (← MembershipOperator.ofJson? operator)
        (← value.string?)
    | _ => none
  | _ => none

mutual

/-- The query that a value is the form of, if a reader opens at most `room` brackets and braces
inside each other to read it. What the reader passes over does not count. -/
def ofJsonWithin? (room : Nat) : Json → Option Query
  | .object members => if 0 < room then ofMembers? (room - 1) members else none
  | _ => none

def ofMembers? (room : Nat) : List (String × Json) → Option Query
  | [m] => ofMember? room m
  | _ => none

def ofMember? (room : Nat) : String × Json → Option Query
  | (name, content) =>
    if name = "And" then (clausesOfJson? room content).map conj
    else if name = "Or" then (clausesOfJson? room content).map disj
    else leafOfJson? room name content

def clausesOfJson? (room : Nat) : Json → Option (List Query)
  | .array items => if 0 < room then ofItems? (room - 1) items else none
  | _ => none

def ofItems? (room : Nat) : List Json → Option (List Query)
  | [] => some []
  | item :: rest => do
    let query ← ofJsonWithin? room item
    let others ← ofItems? room rest
    return query :: others

end

def deepest : Nat := 127

def ofJson? : Json → Option Query := ofJsonWithin? deepest

end Query

namespace SearchRequest

def toJson (r : SearchRequest) : Json :=
  .object [
    ("query", r.query.toJson),
    ("limit", .int r.limit),
    ("cursor", .int r.cursor),
    ("sorting", r.sorting.toJson),
    ("select", r.select.toJson)]

def ofJson? (j : Json) : Option SearchRequest := do
  match ← record? ["query", "limit", "cursor", "sorting", "select"] j with
  | [some query, some limit, some cursor, some sorting, some select] =>
    return ⟨← Query.ofJsonWithin? (Query.deepest - 1) query, ← limit.count?, ← cursor.count?,
      ← Sorting.ofJson? sorting, ← PropertySelect.ofJson? select⟩
  | _ => none

end SearchRequest

namespace SearchConfig

def toJson (c : SearchConfig) : Json :=
  .object (c.settings.map fun e => (e.1, .int e.2))

/-- Settings that are left out have their default. An array may stop early. -/
def ofJson? (j : Json) : Option SearchConfig := do
  let keys := default.settings.map (·.1)
  let members ← match j with
    | .array items =>
      if items.length ≤ keys.length then some (keys.mapIdx fun i _ => items[i]?) else none
    | j => record? keys j
  let settings ← (members.zip default.settings).mapM fun (member, _, usual) =>
    match member with
    | some j => j.count?
    | none => some usual
  match settings with
  | [ceiling, minUpscale, maxLimit, maxConcurrentQueries] =>
    return ⟨ceiling, minUpscale, maxLimit, maxConcurrentQueries⟩
  | _ => none

/-- The valid configuration that a text spells. -/
def ofText (text : String) : Except Error SearchConfig :=
  match (parse? text).bind ofJson? with
  | none => .error (.config .unreadable)
  | some c => do
    c.validate
    return c

end SearchConfig

end GuardedSearch
