import GuardedSearch.Calendar.Instant
import GuardedSearch.Text.Scan

/-!
# Reading instants

The spellings of an instant: RFC 3339, a date with or without a time, and the compact form of
fourteen digits. A spelling with an offset is converted to UTC; the others are in UTC.
-/

namespace GuardedSearch

open Text Calendar

namespace Instant

namespace Literal

/-- A fraction of a second in nanoseconds, if a point begins one; digits after the ninth are
dropped. -/
def fraction : Scanner Nat
  | '.' :: cs =>
    let digits := cs.takeWhile isDigit
    if digits.isEmpty then none
    else
      some (ofDigits 10 ((digits ++ List.replicate 9 '0').take 9), cs.drop digits.length)
  | cs => some (0, cs)

/-- Minutes east of UTC: `Z`, or a sign, two digits of hours and two of minutes, with `gap`
between them. The offset stays below a day. -/
def offset (gap : Scanner Unit) : Scanner Int := do
  let sign ← Scanner.satisfying fun c =>
    c == 'Z' || c == 'z' || c == '+' || c == '-' || c == '−'
  if sign == 'Z' || sign == 'z' then return 0
  let hours ← Scanner.number 2 2
  gap
  let minutes ← Scanner.number 2 2
  if 59 < minutes || 1440 ≤ hours * 60 + minutes then failure
  return if sign == '+' then (hours * 60 + minutes : Nat) else -((hours * 60 + minutes : Nat) : Int)

def atOffset (c : Clock) (minutesEast : Int) : Option Instant := do
  (← c.instant?).addMinutes? (-minutesEast)

/-- RFC 3339 with every part at its full width; a space may stand for the `T`. -/
def strict : Scanner Instant := do
  let year ← Scanner.number 4 4
  Scanner.char '-'
  let month ← Scanner.number 2 2
  Scanner.char '-'
  let day ← Scanner.number 2 2
  let _ ← Scanner.satisfying fun c => c == 'T' || c == 't' || c == ' '
  let hour ← Scanner.number 2 2
  Scanner.char ':'
  let minute ← Scanner.number 2 2
  Scanner.char ':'
  let second ← Scanner.number 2 2
  let nanos ← fraction
  let minutesEast ← offset (Scanner.char ':')
  atOffset ⟨⟨year, month, day⟩, hour, minute, second, nanos⟩ minutesEast

/-- `YYYY-MM-DD`; blanks may precede each number, and zeros at its front may be left out. -/
def date : Scanner Date := do
  Scanner.skipBlanks
  let year ← Scanner.signedNumber 4
  Scanner.char '-'
  Scanner.skipBlanks
  let month ← Scanner.number 1 2
  Scanner.char '-'
  Scanner.skipBlanks
  let day ← Scanner.number 1 2
  return ⟨year, month, day⟩

/-- `HH:MM:SS`; blanks may precede each number, and zeros at its front may be left out. -/
def time : Scanner (Nat × Nat × Nat) := do
  Scanner.skipBlanks
  let hour ← Scanner.number 1 2
  Scanner.char ':'
  Scanner.skipBlanks
  let minute ← Scanner.number 1 2
  Scanner.char ':'
  Scanner.skipBlanks
  let second ← Scanner.number 1 2
  return (hour, minute, second)

def dateAndTime : Scanner Instant := do
  let d ← date
  let (hour, minute, second) ← time
  (⟨d, hour, minute, second, 0⟩ : Clock).instant?

def midnight : Scanner Instant := do
  let d ← date
  (⟨d, 0, 0, 0, 0⟩ : Clock).instant?

/-- `YYYYMMDDHHMMSS` -/
def compact : Scanner Instant := do
  let year ← Scanner.number 4 4
  let month ← Scanner.number 2 2
  let day ← Scanner.number 2 2
  let hour ← Scanner.number 2 2
  let minute ← Scanner.number 2 2
  let second ← Scanner.number 2 2
  (⟨⟨year, month, day⟩, hour, minute, second, 0⟩ : Clock).instant?

/-- RFC 3339 as written by hand: blanks may stand between the parts, zeros at the front of a
number may be left out, the year may have a sign, colons and blanks separate the two parts of
the offset, and `UTC` in any case may stand for it. -/
def relaxed : Scanner Instant := do
  Scanner.skipBlanks
  let year ← Scanner.signedNumber 4
  Scanner.skipBlanks
  Scanner.char '-'
  Scanner.skipBlanks
  let month ← Scanner.number 1 2
  Scanner.skipBlanks
  Scanner.char '-'
  Scanner.skipBlanks
  let day ← Scanner.number 1 2
  let _ ← Scanner.satisfying fun c => c == 'T' || c == 't' || c == ' '
  Scanner.skipBlanks
  let hour ← Scanner.number 1 2
  Scanner.skipBlanks
  Scanner.char ':'
  Scanner.skipBlanks
  let minute ← Scanner.number 1 2
  Scanner.skipBlanks
  Scanner.char ':'
  Scanner.skipBlanks
  let second ← Scanner.number 1 2
  let nanos ← fraction
  Scanner.skipBlanks
  let minutesEast ← utc <|> offset (do let _ ← Scanner.run fun c => c == ':' || isBlank c)
  Scanner.skipBlanks
  atOffset ⟨⟨year, month, day⟩, hour, minute, second, nanos⟩ minutesEast
where
  utc : Scanner Int := do
    let _ ← Scanner.satisfying fun c => c.toLower == 'u'
    let _ ← Scanner.satisfying fun c => c.toLower == 't'
    let _ ← Scanner.satisfying fun c => c.toLower == 'c'
    return 0

end Literal

def ofCompact? (cs : List Char) : Option Instant := Literal.compact.whole? cs

/-- The instant that a text spells in the first of the four forms that fits. -/
def ofLiteral? (cs : List Char) : Option Instant :=
  Literal.strict.whole? cs <|> Literal.dateAndTime.whole? cs <|> Literal.midnight.whole? cs <|>
    ofCompact? cs

def ofStamp? (s : String) : Option Instant := Literal.relaxed.whole? s.toList

end Instant

end GuardedSearch
