import GuardedSearch.Engine
import GuardedSearch.Literal

/-!
# Translation

The native form of a query, case by case. The uri of a subtree is resolved through a snapshot,
so a query is translated on the snapshot on which it is executed.
-/

namespace GuardedSearch

/-- A uri without slashes at its end; the root keeps one. -/
def normalUri (uri : String) : String :=
  let kept := (uri.toList.reverse.dropWhile (· == '/')).reverse
  if kept.isEmpty then "/" else String.ofList kept

namespace Query

variable {σ : Type} (schema : Schema) (engine : Engine σ) (snapshot : SnapshotHandle)

def literalTerm (field literal : String) : Except Error String :=
  ((schema.typeOf field).termOfLiteral literal).mapError .format

def nativeTerm (field : String) (operator : TermOperator) (value : String) :
    Except Error NativeQuery := do
  let term ← literalTerm schema field value
  return match operator with
    | .eq => .term field term
    | .ne => .presentButNot field (.term field term)
    | .gt => .range field (.exclusive term) .unbounded
    | .ge => .range field (.inclusive term) .unbounded
    | .lt => .range field .unbounded (.exclusive term)
    | .le => .range field .unbounded (.inclusive term)

def nativeBound (field : String) (inclusive : Bool) : Option String → Except Error Bound
  | none => .ok .unbounded
  | some literal => do
    let term ← literalTerm schema field literal
    return if inclusive then .inclusive term else .exclusive term

/-- A range without ends asks only for the presence of the field. -/
def nativeRange (field : String) (lower upper : Option String) (inclusive : Bool) :
    Except Error NativeQuery := do
  if lower.isNone && upper.isNone then return .present field
  let lower ← nativeBound schema field inclusive lower
  let upper ← nativeBound schema field inclusive upper
  return .range field lower upper

/-- Prefixes and patterns apply to text alone. -/
def requireText (field kind : String) : Except Error Unit :=
  match schema.typeOf field with
  | .text => .ok ()
  | type => .error (.unsupportedQuery (.notTextField kind field type))

def nativeStartsWith (field stem : String) (inverted : Bool) : Except Error NativeQuery := do
  requireText schema field "PrefixQuery"
  let native := .startsWith field stem
  return if inverted then .neg native else native

def nativeWildcard (field pattern : String) : Except Error NativeQuery := do
  requireText schema field "WildcardQuery"
  return .wildcard (.fresh field pattern)

def nativeUriDepth (depth : Nat) : Except Error NativeQuery :=
  if depth < Word.shift32 then .ok (.term Field.depth (Term.ofInt32 (Int32.ofNat depth)))
  else .error (.invalidArgument (.depthTooLarge depth))

def nativeResourceType (name : String) (operator : TypeOperator) : Except Error NativeQuery :=
  let direct := NativeQuery.term Field.resourceType name
  let expanded : Except Error NativeQuery :=
    if schema.typeTree.contains name then
      .ok (.disj ((name :: schema.typeTree.descendants name).map (.term Field.resourceType)))
    else .error (.unsupportedQuery (.unknownResourceType name))
  match operator with
  | .eq => .ok direct
  | .ne => .ok (.neg direct)
  | .isA => expanded
  | .isNotA => expanded.map .neg

def nativeMembership (field : String) (operator : MembershipOperator) (value : String) :
    Except Error NativeQuery := do
  match (schema.vocabulary? field).filter (·.hierarchical) with
  | none => .error (.unsupportedQuery (.noHierarchicalVocabulary field))
  | some vocabulary =>
    let terms ← (value :: vocabulary.descendants value).mapM (literalTerm schema field)
    let expanded := NativeQuery.disj (terms.map (.term field))
    return match operator with
      | .within => expanded
      | .outside => .presentButNot field expanded

/-- The stored number of the resource at a uri. A resource may lack one. -/
def resolveId (uri : String) : Step σ (Option Int32) := do
  match ← Step.call (engine.lookup snapshot Field.uri uri) with
  | none => return none
  | some doc =>
    let stored ← Step.call (engine.fetch snapshot doc (.ofNames [Field.id]))
    match (stored.get? Field.id).bind (·.head?) with
    | none => return none
    | some value =>
      match ← Step.ofExcept (value.decode .int32) with
      | .int32 id => return some id
      | _ => return none

/-- The resource and those that have it among their ancestors. Below a uri that is not known
there is nothing. -/
def nativeSubtree (uri : String) (inverted : Bool) : Step σ NativeQuery := do
  let subtree ← (do
    match ← resolveId engine snapshot (normalUri uri) with
    | some id =>
      let term := Term.ofInt32 id
      return .disj [.term Field.id term, .term Field.ancestorIds term]
    | none => return .none)
  return if inverted then .neg subtree else subtree

mutual

def translate : Query → Step σ NativeQuery
  | .term field operator value => Step.ofExcept (nativeTerm schema field operator value)
  | .startsWith field stem inverted => Step.ofExcept (nativeStartsWith schema field stem inverted)
  | .range field lower upper inclusive =>
    Step.ofExcept (nativeRange schema field lower upper inclusive)
  | .wildcard field pattern => Step.ofExcept (nativeWildcard schema field pattern)
  | .present field => return .present field
  | .subtree uri inverted => nativeSubtree engine snapshot uri inverted
  | .uriDepth depth => Step.ofExcept (nativeUriDepth depth)
  | .resourceType name operator => Step.ofExcept (nativeResourceType schema name operator)
  | .membership field operator value =>
    Step.ofExcept (nativeMembership schema field operator value)
  | .conj clauses => do return .conj (← translateAll clauses)
  | .disj clauses => do return .disj (← translateAll clauses)

/-- The native forms of clauses, from first to last, up to the first that has none. -/
def translateAll : List Query → Step σ (List NativeQuery)
  | [] => return []
  | query :: rest => do
    let native ← translate query
    let others ← translateAll rest
    return native :: others

end

end Query

end GuardedSearch
