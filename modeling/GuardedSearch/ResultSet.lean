import GuardedSearch.Value

/-!
# Results

The records of one page, and what the search found on the way.
-/

namespace GuardedSearch

structure ResultRecord where
  docId : DocId
  uri : String
  properties : Table (List FieldValue)
deriving DecidableEq

namespace ResultRecord

def property? (r : ResultRecord) (name : String) : Option FieldValue :=
  ((r.properties.get? name).getD []).head?

end ResultRecord

structure ResultSet where
  records : List ResultRecord
  /-- The hits of the last round before authorization: a bound on what the caller may see. -/
  totalHits : Nat
  rounds : Nat
  tookMs : Nat
deriving DecidableEq

namespace ResultSet

def empty : ResultSet := ⟨[], 0, 0, 0⟩

def size (r : ResultSet) : Nat := r.records.length

def isEmpty (r : ResultSet) : Bool := r.records.isEmpty

def uris (r : ResultSet) : List String := r.records.map (·.uri)

end ResultSet

end GuardedSearch
