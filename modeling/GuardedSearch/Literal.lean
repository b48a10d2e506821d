import GuardedSearch.Term

/-!
# Literals

How a query spells a value of a field's type. Blanks around a literal count only in text.
-/

namespace GuardedSearch

open Text

namespace Literal

def readInt? (cs : List Char) : Option Int :=
  let unsigned (ds : List Char) : Option Nat :=
    if ds.isEmpty || !ds.all isDigit then none else some (ofDigits 10 ds)
  match cs with
  | '-' :: ds => (unsigned ds).map fun n => -(n : Int)
  | '+' :: ds => (unsigned ds).map fun n => (n : Int)
  | ds => (unsigned ds).map fun n => (n : Int)

/-- `true` or `false` in any case. -/
def readBool? (cs : List Char) : Option Bool :=
  let lower := cs.map Char.toLower
  if lower = "true".toList then some true
  else if lower = "false".toList then some false
  else none

end Literal

namespace FieldType

def readLiteral (type : FieldType) (raw : String) : Except FormatError FieldValue :=
  let trimmed := trimBlanks raw.toList
  let invalid := .error (.invalidLiteral type raw)
  match type with
  | .text => .ok (.text raw)
  | .int32 =>
    match (Literal.readInt? trimmed).bind Word.int32? with
    | some v => .ok (.int32 v)
    | none => invalid
  | .int64 =>
    match (Literal.readInt? trimmed).bind Word.int64? with
    | some v => .ok (.int64 v)
    | none => invalid
  | .boolean =>
    match Literal.readBool? trimmed with
    | some b => .ok (.boolean b)
    | none => invalid
  | .date =>
    match Instant.ofLiteral? trimmed with
    | some t => .ok (.date t)
    | none => .error (.unrecognisedDate (String.ofList trimmed))

def termOfLiteral (type : FieldType) (raw : String) : Except FormatError String := do
  (← type.readLiteral raw).term

end FieldType

end GuardedSearch
