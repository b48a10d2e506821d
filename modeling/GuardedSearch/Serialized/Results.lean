import GuardedSearch.Authorization
import GuardedSearch.ResultSet
import GuardedSearch.Serialized.Values

/-!
# Serialized results

The JSON forms of records, result sets and tokens.
-/

namespace GuardedSearch

open Json

namespace ResultRecord

def toJson (r : ResultRecord) : Json :=
  .object [
    ("doc_id", r.docId.toJson),
    ("uri", .string r.uri),
    ("properties", valuesToJson r.properties)]

def ofJson? (j : Json) : Option ResultRecord := do
  match ← record? ["doc_id", "uri", "properties"] j with
  | [some docId, some uri, some properties] =>
    return ⟨← DocId.ofJson? docId, ← uri.string?, ← valuesOfJson? properties⟩
  | _ => none

end ResultRecord

namespace ResultSet

def toJson (r : ResultSet) : Json :=
  .object [
    ("records", .array (r.records.map ResultRecord.toJson)),
    ("total_hits", .int r.totalHits),
    ("rounds", .int r.rounds),
    ("took_ms", .int r.tookMs)]

def ofJson? (j : Json) : Option ResultSet := do
  match ← record? ["records", "total_hits", "rounds", "took_ms"] j with
  | [some records, some totalHits, some rounds, some tookMs] =>
    return ⟨← list? ResultRecord.ofJson? records, ← totalHits.count?, ← rounds.count?,
      ← tookMs.count?⟩
  | _ => none

end ResultSet

namespace Token

def toJson (t : Token) : Json := .string t.text

def ofJson? (j : Json) : Option Token := j.string?.map Token.mk

end Token

end GuardedSearch
