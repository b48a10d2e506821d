import GuardedSearch.Calendar.Written
import GuardedSearch.DocSet
import GuardedSearch.Table
import GuardedSearch.Text.Quoted

/-!
# Field values and documents

A document maps field names to lists of typed values. What an index keeps of a value for
retrieval is its stored form, a text or a run of bytes.
-/

namespace GuardedSearch

inductive FieldType where
  | text
  | int32
  | int64
  | boolean
  | date
deriving DecidableEq, Repr

namespace FieldType

def name : FieldType → String
  | text => "Text"
  | int32 => "Int32"
  | int64 => "Int64"
  | boolean => "Boolean"
  | date => "Date"

end FieldType

inductive FieldValue where
  | text (value : String)
  | int32 (value : Int32)
  | int64 (value : Int64)
  | boolean (value : Bool)
  | date (value : Instant)
deriving DecidableEq

namespace FieldValue

def fieldType : FieldValue → FieldType
  | text _ => .text
  | int32 _ => .int32
  | int64 _ => .int64
  | boolean _ => .boolean
  | date _ => .date

/-- The value as a message shows it: the type's name with the value in brackets. -/
def described (v : FieldValue) : String :=
  let content := match v with
    | text s => Text.quote s
    | int32 n => toString n.toInt
    | int64 n => toString n.toInt
    | boolean b => if b then "true" else "false"
    | date t => t.rfc3339
  v.fieldType.name ++ "(" ++ content ++ ")"

end FieldValue

inductive StoredValue where
  | text (value : String)
  | binary (bytes : List UInt8)
deriving DecidableEq

abbrev StoredFields := Table (List StoredValue)

/-- What is handed to an index; a field may have several values, or none. -/
structure Document where
  fields : Table (List FieldValue)
deriving DecidableEq

namespace Document

def empty : Document := ⟨∅⟩

def valuesOf (d : Document) (name : String) : List FieldValue := (d.fields.get? name).getD []

def field? (d : Document) (name : String) : Option FieldValue := (d.valuesOf name).head?

def addValue (d : Document) (name : String) (value : FieldValue) : Document :=
  ⟨d.fields.update name fun values => values.getD [] ++ [value]⟩

end Document

end GuardedSearch
