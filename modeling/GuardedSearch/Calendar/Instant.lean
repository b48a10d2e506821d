import GuardedSearch.Calendar.Date

/-!
# Instants

A point in time, in UTC: whole seconds from 1970-01-01T00:00:00 and nanoseconds within the
second. A leap second belongs to second 59 of its minute and is told apart by a count of
nanoseconds from 10^9 on, so it is not a second of its own in the count of seconds.
-/

namespace GuardedSearch

open Calendar

def secondsPerDay : Int := 86400

def nanosPerSecond : Nat := 1000000000

/-- A point in time between the years -262143 and 262142. -/
structure Instant where
  seconds : Int
  nanos : Nat
  earliest : -8334601228800 ≤ seconds
  latest : seconds ≤ 8210266876799
  nanos_lt : nanos < 2000000000
  leap_at_59 : 1000000000 ≤ nanos → seconds % 60 = 59
deriving DecidableEq

/-- The parts of an instant that are written. The second is 60 in a leap second, and the
nanoseconds are below 10^9. -/
structure Clock where
  date : Date
  hour : Nat
  minute : Nat
  second : Nat
  nanos : Nat
deriving DecidableEq, Repr

namespace Instant

/-- The instant with these parts, if it is within range and a leap second only at the end of
a minute. -/
def of? (seconds : Int) (nanos : Nat) : Option Instant :=
  if h : -8334601228800 ≤ seconds ∧ seconds ≤ 8210266876799 ∧ nanos < 2000000000 ∧
      (1000000000 ≤ nanos → seconds % 60 = 59) then
    some ⟨seconds, nanos, h.1, h.2.1, h.2.2.1, h.2.2.2⟩
  else none

def isLeapSecond (t : Instant) : Bool := nanosPerSecond ≤ t.nanos

def wholeSecond (t : Instant) : Instant :=
  if h : 1000000000 ≤ t.nanos then
    ⟨t.seconds, 1000000000, t.earliest, t.latest, by omega, fun _ => t.leap_at_59 h⟩
  else ⟨t.seconds, 0, t.earliest, t.latest, by omega, fun h0 => absurd h0 (by omega)⟩

def clock (t : Instant) : Clock :=
  let secondOfDay := (t.seconds % secondsPerDay).toNat
  { date := Date.ofDayNumber (t.seconds / secondsPerDay)
    hour := secondOfDay / 3600
    minute := secondOfDay / 60 % 60
    second := secondOfDay % 60 + (if t.isLeapSecond then 1 else 0)
    nanos := t.nanos % nanosPerSecond }

def year (t : Instant) : Int := t.clock.date.year

def addMinutes? (t : Instant) (minutes : Int) : Option Instant :=
  of? (t.seconds + 60 * minutes) t.nanos

end Instant

/-- The instant that a clock shows, if it shows one: the date exists, and second 60 stands for
a leap second in any minute. -/
def Clock.instant? (c : Clock) : Option Instant :=
  if c.date.IsValid ∧ c.hour ≤ 23 ∧ c.minute ≤ 59 ∧ c.second ≤ 60 ∧ c.nanos < nanosPerSecond then
    let leap := c.second == 60
    let second := if leap then 59 else c.second
    Instant.of? (c.date.dayNumber * secondsPerDay + (c.hour * 3600 + c.minute * 60 + second : Nat))
      (if leap then c.nanos + nanosPerSecond else c.nanos)
  else none

end GuardedSearch
