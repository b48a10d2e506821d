import GuardedSearch.Engine

/-!
# Authorization

What an oracle learns about a candidate document, and how it answers for a batch of them.
-/

namespace GuardedSearch

/-- The identity of a caller, which only the oracle interprets. -/
structure Token where
  text : String
deriving DecidableEq

namespace Token

/-- A token is a credential, so its text is not shown. -/
def described (_ : Token) : String := "Token(..)"

end Token

/-- What the oracle is told about one document, and its answer. -/
structure SecurityDescriptor where
  docId : DocId
  uri : String
  owner : Option String
  aclNodeId : Option Int32
  authorized : Bool
deriving DecidableEq

namespace SecurityDescriptor

def selector : FieldSelector := .ofNames [Field.uri, Field.owner, Field.aclNodeId]

/-- The descriptor of a document, not authorized yet. An owner that is no text is no owner,
but a uri must be a text and an acl node a number. -/
def ofStored (docId : DocId) (stored : StoredFields) : Except FormatError SecurityDescriptor :=
  let first (name : String) : Option StoredValue := (stored.get? name).bind (·.head?)
  match first Field.uri with
  | some (.text uri) =>
    let owner := match first Field.owner with
      | some (.text owner) => some owner
      | _ => none
    match first Field.aclNodeId with
    | some (.binary bytes) => do
      return ⟨docId, uri, owner, some (← Bytes.toInt32 bytes), false⟩
    | some (.text _) => .error (.textAclNode docId)
    | none => .ok ⟨docId, uri, owner, none, false⟩
  | _ => .error (.noStoredUri docId)

end SecurityDescriptor

/-- Marks the descriptors of a batch that a caller may see. An oracle may keep a state, and may
share it with the engine. -/
structure Oracle (σ : Type) where
  authorize : Token → List SecurityDescriptor →
    StateM σ (Except Error (List SecurityDescriptor))

namespace Oracle

/-- The oracle that decides each descriptor on its own. -/
def ofPredicate {σ : Type} (allows : Token → SecurityDescriptor → Bool) : Oracle σ where
  authorize token batch :=
    return .ok (batch.map fun d => { d with authorized := allows token d })

end Oracle

end GuardedSearch
