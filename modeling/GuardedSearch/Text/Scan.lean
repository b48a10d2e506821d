import GuardedSearch.Text.Blank
import GuardedSearch.Text.Digits

/-!
# Scanning

A scanner reads from the front of a text and leaves the rest, or fails.
-/

namespace GuardedSearch.Text

abbrev Scanner := StateT (List Char) Option

namespace Scanner

def satisfying (p : Char → Bool) : Scanner Char
  | [] => none
  | c :: cs => if p c then some (c, cs) else none

def char (c : Char) : Scanner Unit := do
  let _ ← satisfying (· == c)

/-- Reads the characters at the front that satisfy `p`, possibly none. -/
def run (p : Char → Bool) : Scanner (List Char) :=
  fun cs => some (cs.takeWhile p, cs.dropWhile p)

def skipBlanks : Scanner Unit := fun cs => some ((), dropBlanks cs)

/-- Reads the longest run of at least `least` and at most `most` digits. -/
def number (least most : Nat) : Scanner Nat := fun cs =>
  let digits := (cs.take most).takeWhile isDigit
  if digits.length < least then none else some (ofDigits 10 digits, cs.drop digits.length)

/-- Reads a number with a sign and any count of digits, or one of at most `most` digits. -/
def signedNumber (most : Nat) : Scanner Int
  | '-' :: cs => (number 1 cs.length cs).map fun r => (-(r.1 : Int), r.2)
  | '+' :: cs => (number 1 cs.length cs).map fun r => ((r.1 : Int), r.2)
  | cs => (number 1 most cs).map fun r => ((r.1 : Int), r.2)

def whole? (s : Scanner α) (cs : List Char) : Option α :=
  match s cs with
  | some (a, []) => some a
  | _ => none

end Scanner

end GuardedSearch.Text
