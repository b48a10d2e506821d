import GuardedSearch.Calendar.Literal
import GuardedSearch.Json.Record
import GuardedSearch.Schema

/-!
# Serialized values, documents and schemas

The JSON forms of values, documents, vocabularies and schemas.
-/

namespace GuardedSearch

open Json

namespace FieldType

def names : Names FieldType where
  all := [text, int32, int64, boolean, date]
  name := name
  mem_all t := by cases t <;> decide
  nodup_name := by decide

def toJson : FieldType → Json := names.toJson

def ofJson? : Json → Option FieldType := names.ofJson?

end FieldType

namespace Instant

def toJson (t : Instant) : Json := .string t.rfc3339

def ofJson? (j : Json) : Option Instant := j.string?.bind ofStamp?

end Instant

namespace FieldValue

def toJson : FieldValue → Json
  | text s => choice "Text" (.string s)
  | int32 n => choice "Int32" (.int n.toInt)
  | int64 n => choice "Int64" (.int n.toInt)
  | boolean b => choice "Boolean" (.bool b)
  | date t => choice "Date" t.toJson

def ofJson? : Json → Option FieldValue
  | .object [("Text", j)] => j.string?.map text
  | .object [("Int32", j)] => (j.int?.bind Word.int32?).map int32
  | .object [("Int64", j)] => (j.int?.bind Word.int64?).map int64
  | .object [("Boolean", j)] => j.bool?.map boolean
  | .object [("Date", j)] => (Instant.ofJson? j).map date
  | _ => none

end FieldValue

namespace StoredValue

def toJson : StoredValue → Json
  | text s => choice "Text" (.string s)
  | binary bytes => choice "Binary" (.array (bytes.map fun b => .int b.toNat))

def ofJson? : Json → Option StoredValue
  | .object [("Text", j)] => j.string?.map text
  | .object [("Binary", j)] => (list? (nat? 256) j).map fun ns => binary (ns.map UInt8.ofNat)
  | _ => none

end StoredValue

namespace DocId

def toJson (d : DocId) : Json := .int d.ordinal

def ofJson? (j : Json) : Option DocId := (j.nat? Word.size32).map DocId.mk

end DocId

def valuesToJson (values : Table (List FieldValue)) : Json :=
  ofTable (fun vs => .array (vs.map FieldValue.toJson)) values

def valuesOfJson? : Json → Option (Table (List FieldValue)) := table? (list? FieldValue.ofJson?)

namespace Document

def toJson (d : Document) : Json := .object [("fields", valuesToJson d.fields)]

def ofJson? (j : Json) : Option Document := do
  match ← record? ["fields"] j with
  | [some fields] => return ⟨← valuesOfJson? fields⟩
  | _ => none

end Document

namespace Vocabulary

def toJson (v : Vocabulary) : Json :=
  .object [
    ("hierarchical", .bool v.hierarchical),
    ("parents", ofTable (ofOption .string) v.parents),
    ("children", ofTable (fun cs => .array (cs.map .string)) v.children)]

def ofJson? (j : Json) : Option Vocabulary := do
  match ← record? ["hierarchical", "parents", "children"] j with
  | [some hierarchical, some parents, some children] =>
    return ⟨← hierarchical.bool?, ← table? (optional? string?) parents,
      ← table? (list? string?) children⟩
  | _ => none

end Vocabulary

namespace FieldDefinition

def toJson (d : FieldDefinition) : Json :=
  .object [
    ("name", .string d.name),
    ("field_type", d.type.toJson),
    ("vocabulary", ofOption Vocabulary.toJson d.vocabulary)]

def ofJson? (j : Json) : Option FieldDefinition := do
  match ← record? ["name", "field_type", "vocabulary"] j with
  | [some name, some type, vocabulary] =>
    return ⟨← name.string?, ← FieldType.ofJson? type, ← member? Vocabulary.ofJson? vocabulary⟩
  | _ => none

end FieldDefinition

namespace Schema

def toJson (s : Schema) : Json :=
  .object [
    ("fields", ofTable FieldDefinition.toJson s.fields),
    ("type_tree", s.typeTree.toJson)]

def ofJson? (j : Json) : Option Schema := do
  match ← record? ["fields", "type_tree"] j with
  | [some fields, some typeTree] =>
    return ⟨← table? FieldDefinition.ofJson? fields, ← Vocabulary.ofJson? typeTree⟩
  | _ => none

end Schema

end GuardedSearch
