import GuardedSearch.Config
import GuardedSearch.Query
import GuardedSearch.Word

/-!
# Requests

One page of results: the query, the window of the page, the order and the properties.
-/

namespace GuardedSearch

inductive PropertySelect where
  | all
  | none
  | named (names : NameSet)
deriving DecidableEq

structure SearchRequest where
  query : Query
  limit : Nat
  cursor : Nat
  sorting : Sorting
  select : PropertySelect

namespace SearchRequest

/-- The first and largest page of a query. -/
def ofQuery (query : Query) : SearchRequest := ⟨query, maxLimit, 0, .documentOrder, .all⟩

/-- A negative limit is refused, a large one cut. -/
def withLimit (r : SearchRequest) (limit : Int) : Except Error SearchRequest :=
  if limit < 0 then .error (.invalidArgument (.negativeLimit limit))
  else .ok { r with limit := min limit.toNat maxLimit }

def withCursor (r : SearchRequest) (cursor : Int) : Except Error SearchRequest :=
  if cursor < 0 then .error (.invalidArgument (.negativeCursor cursor))
  else .ok { r with cursor := cursor.toNat }

def withSorting (r : SearchRequest) (sorting : Sorting) : SearchRequest :=
  { r with sorting := sorting }

def withSelect (r : SearchRequest) (select : PropertySelect) : SearchRequest :=
  { r with select := select }

/-- How many authorized documents fill the page, if pages have at most `largest` records. The
count saturates at the greatest machine word. -/
def need (r : SearchRequest) (largest : Nat) : Nat :=
  min (r.cursor + min r.limit largest) Word.maxCount

end SearchRequest

end GuardedSearch
