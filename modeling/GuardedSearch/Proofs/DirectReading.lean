import GuardedSearch.Translation
import GuardedSearch.Proofs.Descendants
import GuardedSearch.Proofs.Dictionary
import GuardedSearch.Proofs.GlobMatching
import GuardedSearch.Proofs.TermOrder

/-!
# Queries read on the values of documents

`Query.Holds` says which documents satisfy a query, by the values of their fields and without
index terms. Literals are read as values of the field's type, vocabularies as what is reached
by way of children, and the resource at a uri is the first document that has the uri.
-/

namespace GuardedSearch

namespace Schema

/-- The reserved fields have the types that every schema begins with. -/
def KeepsReserved (schema : Schema) : Prop :=
  ∀ name definition, initial.field? name = some definition → schema.typeOf name = definition.type

theorem initial_keepsReserved : initial.KeepsReserved := by
  intro name definition h
  rw [typeOf, h]

theorem keepsReserved_iff {schema : Schema} : schema.KeepsReserved ↔
    ∀ e ∈ initial.fields.entries, schema.typeOf e.1 = e.2.type := by
  constructor
  · exact fun h e he => h e.1 e.2 (Table.mem_entries_iff.mp he)
  · exact fun h name definition hfield => h (name, definition) (Table.mem_entries_iff.mpr hfield)

instance (schema : Schema) : Decidable schema.KeepsReserved :=
  decidable_of_iff _ keepsReserved_iff.symm

namespace KeepsReserved

variable {schema : Schema} (h : schema.KeepsReserved)

include h

theorem typeOf_uri : schema.typeOf Field.uri = .text := h _ ⟨Field.uri, .text, none⟩ rfl

theorem typeOf_id : schema.typeOf Field.id = .int32 := h _ ⟨Field.id, .int32, none⟩ rfl

theorem typeOf_ancestorIds : schema.typeOf Field.ancestorIds = .int32 :=
  h _ ⟨Field.ancestorIds, .int32, none⟩ rfl

theorem typeOf_depth : schema.typeOf Field.depth = .int32 := h _ ⟨Field.depth, .int32, none⟩ rfl

theorem typeOf_resourceType : schema.typeOf Field.resourceType = .text :=
  h _ ⟨Field.resourceType, .text, none⟩ rfl

theorem typeOf_aclNodeId : schema.typeOf Field.aclNodeId = .int32 :=
  h _ ⟨Field.aclNodeId, .int32, none⟩ rfl

end KeepsReserved

end Schema

/-- Every value of a document has the type of its field. -/
def Document.Conforms (doc : Document) (schema : Schema) : Prop :=
  ∀ field, ∀ v ∈ doc.valuesOf field, v.fieldType = schema.typeOf field

theorem Document.conforms_iff {doc : Document} {schema : Schema} : doc.Conforms schema ↔
    ∀ e ∈ doc.fields.entries, ∀ v ∈ e.2, v.fieldType = schema.typeOf e.1 := by
  constructor
  · intro h e he v hv
    refine h e.1 v ?_
    rwa [valuesOf, Table.mem_entries_iff.mp he]
  · intro h field v hv
    rw [valuesOf] at hv
    cases hget : doc.fields.get? field with
    | none => simp [hget] at hv
    | some values =>
      rw [hget, Option.getD_some] at hv
      exact h (field, values) (Table.mem_entries_iff.mpr hget) v hv

instance (doc : Document) (schema : Schema) : Decidable (doc.Conforms schema) :=
  decidable_of_iff _ Document.conforms_iff.symm

/-- The order in which a value stands to a literal that the operator asks for. -/
def TermOperator.Admits : TermOperator → Ordering → Prop
  | .eq, o => o = .eq
  | .ne, o => o ≠ .eq
  | .gt, o => o = .gt
  | .ge, o => o ≠ .lt
  | .lt, o => o = .lt
  | .le, o => o ≠ .gt

/-- The number of the resource at a uri: the first document with that uri gives it. -/
def numberAt (docs : List Document) (uri : String) : Option Int32 := do
  let resource ← docs.find? fun doc => doc.valuesOf Field.uri |>.contains (.text uri)
  match resource.field? Field.id with
  | some (.int32 id) => some id
  | _ => none

namespace Query

/-- A proposition or its negation. -/
def Inverted (inverted : Bool) (p : Prop) : Prop := if inverted = true then ¬ p else p

variable (schema : Schema) (docs : List Document)

/-- A value stands to a literal of its field as the operator asks. -/
def Compares (field : String) (operator : TermOperator) (raw : String) (v : FieldValue) : Prop :=
  ∃ literal o, (schema.typeOf field).readLiteral raw = .ok literal ∧ v.order? literal = some o ∧
    operator.Admits o

/-- Some value of the field equals the literal. -/
def HasLiteral (doc : Document) (field raw : String) : Prop :=
  ∃ v ∈ doc.valuesOf field, Compares schema field .eq raw v

/-- Some value of the field is the literal or one below it in the field's vocabulary. -/
def HasBelow (doc : Document) (field raw : String) : Prop :=
  ∃ vocabulary, schema.vocabulary? field = some vocabulary ∧
    ∃ below, Relation.ReflTransGen vocabulary.IsChild raw below ∧ HasLiteral schema doc field below

/-- Some resource type of the document is this or one below it. -/
def IsA (doc : Document) (name : String) : Prop :=
  ∃ below, Relation.ReflTransGen schema.typeTree.IsChild name below ∧
    .text below ∈ doc.valuesOf Field.resourceType

/-- The document is the resource at the uri, or has it among its ancestors. -/
def InSubtree (doc : Document) (uri : String) : Prop :=
  ∃ id, numberAt docs (normalUri uri) = some id ∧
    (.int32 id ∈ doc.valuesOf Field.id ∨ .int32 id ∈ doc.valuesOf Field.ancestorIds)

mutual

/-- A document satisfies a query. -/
def Holds (doc : Document) : Query → Prop
  | .term field .ne raw => doc.valuesOf field ≠ [] ∧ ¬ HasLiteral schema doc field raw
  | .term field operator raw => ∃ v ∈ doc.valuesOf field, Compares schema field operator raw v
  | .startsWith field stem inverted =>
    Inverted inverted (∃ s, .text s ∈ doc.valuesOf field ∧ Text.bytes stem <+: Text.bytes s)
  | .range field lower upper inclusive =>
    ∃ v ∈ doc.valuesOf field,
      (∀ raw ∈ lower, Compares schema field (if inclusive then .ge else .gt) raw v) ∧
      (∀ raw ∈ upper, Compares schema field (if inclusive then .le else .lt) raw v)
  | .wildcard field pattern =>
    ∃ s, .text s ∈ doc.valuesOf field ∧ Glob.Matches pattern.toList s.toList
  | .present field => doc.valuesOf field ≠ []
  | .subtree uri inverted => Inverted inverted (InSubtree docs doc uri)
  | .uriDepth depth => ∃ n : Int32, .int32 n ∈ doc.valuesOf Field.depth ∧ n.toInt = depth
  | .resourceType name .eq => .text name ∈ doc.valuesOf Field.resourceType
  | .resourceType name .ne => .text name ∉ doc.valuesOf Field.resourceType
  | .resourceType name .isA => IsA schema doc name
  | .resourceType name .isNotA => ¬ IsA schema doc name
  | .membership field .within raw => HasBelow schema doc field raw
  | .membership field .outside raw => doc.valuesOf field ≠ [] ∧ ¬ HasBelow schema doc field raw
  | .conj clauses => HoldAll doc clauses
  | .disj clauses => HoldsAny doc clauses

/-- All of the clauses hold. -/
def HoldAll (doc : Document) : List Query → Prop
  | [] => True
  | query :: rest => Holds doc query ∧ HoldAll doc rest

/-- One of the clauses holds. -/
def HoldsAny (doc : Document) : List Query → Prop
  | [] => False
  | query :: rest => Holds doc query ∨ HoldsAny doc rest

end

end Query

end GuardedSearch
