import GuardedSearch.Calendar.Instant
import GuardedSearch.Text.Digits

/-!
# Written instants

The texts of an instant: the RFC 3339 form, the form with spaces that messages use, and the
compact form of fourteen digits. A year from 0 to 9999 has four digits, any other a sign and
at least four digits.
-/

namespace GuardedSearch

open Text

namespace Calendar

def writtenYear (year : Int) : List Char :=
  if 0 ≤ year ∧ year ≤ 9999 then paddedNat 4 year.toNat
  else (if year < 0 then '-' else '+') :: paddedNat 4 year.natAbs

def Date.written (d : Date) : List Char :=
  writtenYear d.year ++ '-' :: fixedDigits 10 2 d.month ++ '-' :: fixedDigits 10 2 d.day

/-- The shortest of no, three, six or nine places that shows all of the fraction. -/
def writtenFraction (nanos : Nat) : List Char :=
  if nanos = 0 then []
  else if nanos % 1000000 = 0 then '.' :: fixedDigits 10 3 (nanos / 1000000)
  else if nanos % 1000 = 0 then '.' :: fixedDigits 10 6 (nanos / 1000)
  else '.' :: fixedDigits 10 9 nanos

end Calendar

open Calendar

namespace Clock

def writtenTime (c : Clock) : List Char :=
  fixedDigits 10 2 c.hour ++ ':' :: fixedDigits 10 2 c.minute ++ ':' :: fixedDigits 10 2 c.second ++
    writtenFraction c.nanos

/-- `YYYYMMDDHHMMSS`, for a year of four digits. -/
def compact (c : Clock) : List Char :=
  fixedDigits 10 4 c.date.year.toNat ++ fixedDigits 10 2 c.date.month ++
    fixedDigits 10 2 c.date.day ++ fixedDigits 10 2 c.hour ++ fixedDigits 10 2 c.minute ++
    fixedDigits 10 2 c.second

end Clock

namespace Instant

/-- `YYYY-MM-DDTHH:MM:SS[.fraction]Z` -/
def rfc3339 (t : Instant) : String :=
  String.ofList (t.clock.date.written ++ 'T' :: t.clock.writtenTime ++ ['Z'])

/-- `YYYY-MM-DD HH:MM:SS[.fraction] UTC` -/
def spaced (t : Instant) : String :=
  String.ofList (t.clock.date.written ++ ' ' :: t.clock.writtenTime) ++ " UTC"

end Instant

end GuardedSearch
