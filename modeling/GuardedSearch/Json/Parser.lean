import GuardedSearch.Json.Token

/-!
# Reading JSON

A value is built from tokens with a stack of the containers that are still open, so nesting
needs no recursion. The whole text has to be one value.
-/

namespace GuardedSearch.Json

/-- The members of an object so far, in reverse. A key with half of a surrogate pair is no
text. -/
abbrev Members := List (Option String × Json)

/-- An object; one with a key that is no text has no members that can be named. -/
def ofMembers (members : Members) : Json :=
  match members.mapM fun m => m.1.map (·, m.2) with
  | some named => .object named.reverse
  | none => .unpaired

/-- An open container, with what it holds so far in reverse. -/
inductive Frame where
  | items (done : List Json)
  | members (done : Members) (key : Option String)

inductive Point where
  | value
  | firstItem
  | firstKey
  | nextKey (done : Members)
  | colon (done : Members) (key : Option String)
  | after (value : Json)

abbrev Building := List Frame × Point

def Building.begin? (stack : List Frame) : Token → Option Building
  | .word v => some (stack, .after v)
  | .string s => some (stack, .after (s.elim .unpaired .string))
  | .openItems => some (.items [] :: stack, .firstItem)
  | .openMembers => some (stack, .firstKey)
  | _ => none

def Building.step? : Building → Token → Option Building
  | (stack, .value), token => begin? stack token
  | (.items [] :: stack, .firstItem), .closeItems => some (stack, .after (.array []))
  | (stack, .firstItem), token => begin? stack token
  | (stack, .firstKey), .closeMembers => some (stack, .after (.object []))
  | (stack, .firstKey), .string key => some (stack, .colon [] key)
  | (stack, .nextKey done), .string key => some (stack, .colon done key)
  | (stack, .colon done key), .colon => some (.members done key :: stack, .value)
  | (.items done :: stack, .after v), .comma => some (.items (v :: done) :: stack, .value)
  | (.items done :: stack, .after v), .closeItems =>
    some (stack, .after (.array (v :: done).reverse))
  | (.members done key :: stack, .after v), .comma => some (stack, .nextKey ((key, v) :: done))
  | (.members done key :: stack, .after v), .closeMembers =>
    some (stack, .after (ofMembers ((key, v) :: done)))
  | _, _ => none

def Building.finish? : Building → Option Json
  | ([], .after v) => some v
  | _ => none

def ofTokens? (tokens : List Token) : Option Json := do
  (← tokens.foldlM Building.step? ([], .value)).finish?

def parse? (text : String) : Option Json := do
  ofTokens? (← tokens? text.toList)

end GuardedSearch.Json
