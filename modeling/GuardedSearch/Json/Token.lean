import GuardedSearch.Json.Value

/-!
# JSON tokens

The lexer goes through a text once, character by character. Its mode says what it is in the
middle of; the tokens found so far are kept in reverse. An escape that is half of a surrogate
pair is well formed, but the string around it has no value.
-/

namespace GuardedSearch.Json

open Text

inductive Token where
  | openItems
  | closeItems
  | openMembers
  | closeMembers
  | comma
  | colon
  /-- A string; one with half of a surrogate pair has no value. -/
  | string (value : Option String)
  | word (value : Json)

/-- The characters of a string so far, in reverse; none after half of a surrogate pair. -/
abbrev Taken := Option (List Char)

def Taken.push (taken : Taken) (c : Char) : Taken := taken.map (c :: ·)

inductive Mode where
  | between
  /-- The characters so far, in reverse. -/
  | word (taken : List Char)
  | text (taken : Taken)
  | escape (taken : Taken)
  /-- In the four digits of a code unit, `left` of them to come; `high` is the first half of a
  surrogate pair. -/
  | unit (taken : Taken) (high : Option Nat) (left code : Nat)
  /-- After the first half of a surrogate pair. -/
  | pair (taken : Taken) (high : Nat)
  | pairEscape (taken : Taken) (high : Nat)

def isSpace (c : Char) : Bool := c == ' ' || c == '\n' || c == '\r' || c == '\t'

def Token.ofPunctuation? (c : Char) : Option Token :=
  if c = '[' then some .openItems
  else if c = ']' then some .closeItems
  else if c = '\x7b' then some .openMembers
  else if c = '\x7d' then some .closeMembers
  else if c = ',' then some .comma
  else if c = ':' then some .colon
  else none

/-- Whether `cs` is what may follow the whole part of a number: a fraction, an exponent,
both or nothing. -/
def isNumberTail (cs : List Char) : Bool :=
  let exponent (cs : List Char) : Bool :=
    match cs with
    | [] => true
    | e :: rest =>
      let digits := match rest with
        | '+' :: digits => digits
        | '-' :: digits => digits
        | digits => digits
      (e == 'e' || e == 'E') && !digits.isEmpty && digits.all isDigit
  match cs with
  | '.' :: rest => !(rest.takeWhile isDigit).isEmpty && exponent (rest.dropWhile isDigit)
  | rest => exponent rest

/-- A number. Its whole part has no needless zero at the front; `-0` is not an integer. -/
def number? (cs : List Char) : Option Json :=
  let negative := cs.head? == some '-'
  let unsigned := if negative then cs.tail else cs
  let whole := unsigned.takeWhile isDigit
  let tail := unsigned.dropWhile isDigit
  if whole.isEmpty || (whole.head? == some '0' && 1 < whole.length) then none
  else if tail.isEmpty && !(negative && whole == ['0']) then
    let n : Int := ofDigits 10 whole
    some (.int (if negative then -n else n))
  else if isNumberTail tail then some (.decimal (String.ofList cs))
  else none

def Token.ofWord? (cs : List Char) : Option Token :=
  if cs = "null".toList then some (.word .null)
  else if cs = "true".toList then some (.word (.bool true))
  else if cs = "false".toList then some (.word (.bool false))
  else (number? cs).map .word

def unescape? (c : Char) : Option Char :=
  if c = '"' || c = '\\' || c = '/' then some c
  else if c = 'b' then some '\x08'
  else if c = 'f' then some '\x0c'
  else if c = 'n' then some '\n'
  else if c = 'r' then some '\r'
  else if c = 't' then some '\t'
  else none

def isHighHalf (code : Nat) : Bool := 0xD800 ≤ code && code ≤ 0xDBFF

def isLowHalf (code : Nat) : Bool := 0xDC00 ≤ code && code ≤ 0xDFFF

/-- What a complete code unit leads to: a character, or the wait for the second half of a pair.
A half that stands alone takes the value from the string. -/
def Mode.afterUnit (taken : Taken) (high : Option Nat) (code : Nat) : Mode :=
  match high with
  | none =>
    if isHighHalf code then .pair taken code
    else if isLowHalf code then .text none
    else .text (taken.push (Char.ofNat code))
  | some high =>
    if isLowHalf code then
      .text (taken.push (Char.ofNat (0x10000 + (high - 0xD800) * 0x400 + (code - 0xDC00))))
    else .text none

abbrev Lexer := Mode × List Token

def Lexer.start? (tokens : List Token) (c : Char) : Option Lexer :=
  if isSpace c then some (.between, tokens)
  else if c = '"' then some (.text (some []), tokens)
  else match Token.ofPunctuation? c with
    | some token => some (.between, token :: tokens)
    | none => some (.word [c], tokens)

def endsWord (c : Char) : Bool := isSpace c || c == '"' || (Token.ofPunctuation? c).isSome

def Lexer.stepText? (taken : Taken) (tokens : List Token) (c : Char) : Option Lexer :=
  if c = '"' then
    some (.between, .string (taken.map fun cs => String.ofList cs.reverse) :: tokens)
  else if c = '\\' then some (.escape taken, tokens)
  else if c.toNat < 0x20 then none
  else some (.text (taken.push c), tokens)

def Lexer.stepEscape? (taken : Taken) (tokens : List Token) (high : Option Nat) (c : Char) :
    Option Lexer :=
  if c = 'u' then some (.unit taken high 4 0, tokens)
  else do
    let d ← unescape? c
    return (.text (if high.isSome then none else taken.push d), tokens)

def Lexer.step? : Lexer → Char → Option Lexer
  | (.between, tokens), c => start? tokens c
  | (.word taken, tokens), c =>
    if endsWord c then do
      let token ← Token.ofWord? taken.reverse
      start? (token :: tokens) c
    else some (.word (c :: taken), tokens)
  | (.text taken, tokens), c => stepText? taken tokens c
  | (.escape taken, tokens), c => stepEscape? taken tokens none c
  | (.unit taken high left code, tokens), c =>
    if !isHexDigit c then none
    else
      let code := code * 16 + digitValue c
      some (if left ≤ 1 then Mode.afterUnit taken high code
        else .unit taken high (left - 1) code, tokens)
  | (.pair taken high, tokens), c =>
    if c = '\\' then some (.pairEscape taken high, tokens) else stepText? none tokens c
  | (.pairEscape taken high, tokens), c => stepEscape? taken tokens (some high) c

def Lexer.finish? : Lexer → Option (List Token)
  | (.between, tokens) => some tokens.reverse
  | (.word taken, tokens) => do
    let token ← Token.ofWord? taken.reverse
    return (token :: tokens).reverse
  | _ => none

def tokens? (cs : List Char) : Option (List Token) := do
  (← cs.foldlM Lexer.step? (.between, [])).finish?

end GuardedSearch.Json
