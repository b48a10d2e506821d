import GuardedSearch.Text.Digits

/-!
# JSON values

A number is kept as an integer when it is written as one. Any other number stands as its
text, and a string with half of a surrogate pair is no text at all: no record of this library
has such members, but they may stand where a reader passes over them. Members keep their
order, and a key may repeat.
-/

namespace GuardedSearch

inductive Json where
  | null
  | bool (value : Bool)
  | int (value : Int)
  | decimal (text : String)
  | string (value : String)
  /-- A string with half of a surrogate pair, or an object with such a key. -/
  | unpaired
  | array (items : List Json)
  | object (members : List (String × Json))
deriving Inhabited

namespace Json

open Text

def escapeChar (c : Char) : List Char :=
  if c = '"' then ['\\', '"']
  else if c = '\\' then ['\\', '\\']
  else if c = '\x08' then ['\\', 'b']
  else if c = '\x0c' then ['\\', 'f']
  else if c = '\n' then ['\\', 'n']
  else if c = '\r' then ['\\', 'r']
  else if c = '\t' then ['\\', 't']
  else if c.toNat < 0x20 then '\\' :: 'u' :: fixedDigits 16 4 c.toNat
  else [c]

def renderString (s : String) : List Char :=
  '"' :: (s.toList.flatMap escapeChar ++ ['"'])

mutual

/-- The text of a value, without blanks. What is no text has none, and `null` stands for it. -/
def render : Json → List Char
  | .null => "null".toList
  | .bool true => "true".toList
  | .bool false => "false".toList
  | .int n => (toString n).toList
  | .decimal text => text.toList
  | .string s => renderString s
  | .unpaired => "null".toList
  | .array items => '[' :: renderItems items
  | .object members => '\x7b' :: renderMembers members

def renderItems : List Json → List Char
  | [] => [']']
  | [item] => render item ++ [']']
  | item :: rest => render item ++ ',' :: renderItems rest

def renderMembers : List (String × Json) → List Char
  | [] => ['\x7d']
  | [(key, value)] => renderString key ++ ':' :: (render value ++ ['\x7d'])
  | (key, value) :: rest => renderString key ++ ':' :: (render value ++ ',' :: renderMembers rest)

end

def toText (j : Json) : String := String.ofList j.render

end Json

end GuardedSearch
