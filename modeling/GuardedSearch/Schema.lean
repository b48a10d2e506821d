import GuardedSearch.Value
import GuardedSearch.Vocabulary

/-!
# Schemas

The declared type of each field, the vocabularies of fields, and the tree of resource types.
A field that is not declared holds text.
-/

namespace GuardedSearch

/-! The names of the fields that every schema declares. -/

namespace Field

def uri : String := "uri"
def id : String := "id"
def ancestorIds : String := "ancestorIds"
def depth : String := "depth"
def resourceType : String := "resourceType"
def owner : String := "owner"
def aclNodeId : String := "aclNodeId"

end Field

structure FieldDefinition where
  name : String
  type : FieldType
  vocabulary : Option Vocabulary
deriving DecidableEq

structure Schema where
  fields : Table FieldDefinition
  typeTree : Vocabulary
deriving DecidableEq

namespace Schema

def define (s : Schema) (name : String) (type : FieldType)
    (vocabulary : Option Vocabulary) : Schema :=
  { s with fields := s.fields.insert name ⟨name, type, vocabulary⟩ }

def addField (s : Schema) (name : String) (type : FieldType) : Schema := s.define name type none

def addVocabularyField (s : Schema) (name : String) (type : FieldType)
    (vocabulary : Vocabulary) : Schema :=
  s.define name type (some vocabulary)

def withTypeTree (s : Schema) (tree : Vocabulary) : Schema := { s with typeTree := tree }

/-- The reserved fields with their types, and a tree without resource types. -/
def initial : Schema :=
  (⟨∅, Vocabulary.tree⟩ : Schema)
    |>.addField Field.uri .text
    |>.addField Field.id .int32
    |>.addField Field.ancestorIds .int32
    |>.addField Field.depth .int32
    |>.addField Field.resourceType .text
    |>.addField Field.owner .text
    |>.addField Field.aclNodeId .int32

def field? (s : Schema) (name : String) : Option FieldDefinition := s.fields.get? name

def typeOf (s : Schema) (name : String) : FieldType :=
  match s.field? name with
  | some definition => definition.type
  | none => .text

def vocabulary? (s : Schema) (name : String) : Option Vocabulary :=
  (s.field? name).bind (·.vocabulary)

end Schema

end GuardedSearch
