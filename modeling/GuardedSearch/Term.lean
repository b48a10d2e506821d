import GuardedSearch.Error
import GuardedSearch.Word
import GuardedSearch.Calendar.Literal

/-!
# Index terms

The sortable text of a value: comparing the terms of two values of one type compares the
values. Integers are shifted into the unsigned range and written with a fixed count of
hexadecimal digits, dates to the second with fourteen decimal digits.
-/

namespace GuardedSearch

open Text

namespace Term

/-- Eight hexadecimal digits of the value shifted by 2^31. -/
def ofInt32 (v : Int32) : String :=
  String.ofList (fixedDigits 16 8 (v.toInt + Word.shift32).toNat)

/-- Sixteen hexadecimal digits of the value shifted by 2^63. -/
def ofInt64 (v : Int64) : String :=
  String.ofList (fixedDigits 16 16 (v.toInt + Word.shift64).toNat)

def ofBool (b : Bool) : String := if b then "true" else "false"

/-- Fourteen digits down to the second; only the years 0 to 9999 have a term. -/
def ofInstant (t : Instant) : Except FormatError String :=
  if 0 ≤ t.year ∧ t.year ≤ 9999 then .ok (String.ofList t.clock.compact)
  else .error (.yearOutOfRange t)

/-- The number that hexadecimal digits in either case stand for, below 2^64. -/
def readHex (text : String) : Except FormatError Nat :=
  let cs := text.toList
  if cs.isEmpty || !cs.all isHexDigit then .error (.notHexadecimal text)
  else
    let n := ofDigits 16 cs
    if n < Word.size64 then .ok n else .error (.hexadecimalTooLarge text)

def toInt32 (text : String) : Except FormatError Int32 := do
  let n ← readHex text
  if n < Word.size32 then .ok (Int32.ofInt (n - Word.shift32)) else .error (.int32OutOfRange text)

def toInt64 (text : String) : Except FormatError Int64 := do
  let n ← readHex text
  .ok (Int64.ofInt (n - Word.shift64))

def toInstant (text : String) : Except FormatError Instant :=
  let cs := text.toList
  if cs.length ≠ 14 ∨ !cs.all isDigit then .error (.notEncodedDate text)
  else match Instant.ofCompact? cs with
    | some t => .ok t
    | none => .error (.noSuchDate text)

end Term

def FieldValue.term : FieldValue → Except FormatError String
  | .text s => .ok s
  | .int32 v => .ok (Term.ofInt32 v)
  | .int64 v => .ok (Term.ofInt64 v)
  | .boolean b => .ok (Term.ofBool b)
  | .date t => Term.ofInstant t

end GuardedSearch
