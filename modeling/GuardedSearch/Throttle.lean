import GuardedSearch.Error
import GuardedSearch.Gate

/-!
# Throttled searches

Calls of a search behind a gate. A call waits for a permit, runs the search once it has one,
and returns what the search returned; a call that is cancelled while it waits, or that the
gate turns away, returns without a search. A call gives its permit back before it returns, and
panics instead if the gate cannot count it.
-/

namespace GuardedSearch

/-- A call that has not returned. -/
structure Call where
  number : Nat
  /-- Whether its cancellation has happened. -/
  cancelled : Bool
  running : Bool
deriving DecidableEq, Repr

/-- How a call ends: cancelled, with what its search gave, or in a panic as the permit that it
gives back is one more than the gate counts. -/
inductive CallOutcome (α : Type) where
  | cancelled
  | searched (result : α)
  | overflowed
deriving DecidableEq, Repr

structure Throttle (α : Type) where
  gate : Gate
  /-- The calls that have not returned, in the order in which they were started. -/
  calls : List Call
  /-- The calls whose searches were begun, in this order. -/
  entered : List Nat
  /-- The calls that returned, in this order. -/
  returned : List (Nat × CallOutcome α)

namespace Throttle

variable {α : Type}

def opened (semaphore : Semaphore) (limit : Nat) : Throttle α :=
  ⟨.opened semaphore limit, [], [], []⟩

def ofSemaphore (semaphore : Semaphore) (limit : Nat) : Except Gate.Refusal (Throttle α) := do
  return ⟨← Gate.ofSemaphore semaphore limit, [], [], []⟩

/-- A throttle with a semaphore that stays closed. -/
def ofLimit (limit : Nat) : Except Gate.Refusal (Throttle α) := ofSemaphore .keepsClosed limit

/-- The error that callers see when a size is refused. -/
def Refusal.error? : Gate.Refusal → Option Error
  | .notPositive => some (.invalidArgument .noConcurrentQueries)
  | .tooManyPermits => none

def call? (t : Throttle α) (number : Nat) : Option Call := t.calls.find? (·.number == number)

def waiting (t : Throttle α) : List Nat := (t.calls.filter fun c => !c.running).map (·.number)

def running (t : Throttle α) : List Nat := (t.calls.filter (·.running)).map (·.number)

/-- A call begins to wait. It has not looked at the gate yet. -/
def start (t : Throttle α) (number : Nat) (cancelled : Bool) : Throttle α :=
  { t with calls := t.calls ++ [⟨number, cancelled, false⟩] }

def cancel (t : Throttle α) (number : Nat) : Throttle α :=
  { t with
    calls := t.calls.map fun c => if c.number = number then { c with cancelled := true } else c }

def remove (t : Throttle α) (number : Nat) : Throttle α :=
  { t with calls := t.calls.filter fun c => c.number ≠ number }

def resolve (t : Throttle α) (number : Nat) (outcome : CallOutcome α) : Throttle α :=
  { t.remove number with returned := t.returned ++ [(number, outcome)] }

/-- A waiting call is given up by its caller and never returns. -/
def drop (t : Throttle α) (number : Nat) : Throttle α :=
  { t.remove number with gate := t.gate.leave number }

/-- What a waiting call returns that goes away without a search. -/
def away (t : Throttle α) (number : Nat) : CallOutcome α :=
  if t.gate.canLeave number then .cancelled else .overflowed

/-- What a running call returns when its search ends. -/
def ending (t : Throttle α) (number : Nat) (result : α) : CallOutcome α :=
  if t.gate.canFinish number then .searched result else .overflowed

/-- A waiting call looks for its cancellation first and at the gate after that. -/
def poll (t : Throttle α) (number : Nat) : Throttle α :=
  match t.call? number with
  | none => t
  | some call =>
    if call.running then t
    else if call.cancelled then
      { t.resolve number (t.away number) with gate := t.gate.leave number }
    else match t.gate.look number with
      | (.wait, gate) => { t with gate := gate }
      | (.refused, gate) => { t.resolve number (t.away number) with gate := gate }
      | (.enter, gate) =>
        { t with
          gate := gate
          calls := t.calls.map fun c => if c.number = number then { c with running := true } else c
          entered := t.entered ++ [number] }

/-- Every waiting call looks once, the oldest first. -/
def pollAll (t : Throttle α) : Throttle α := t.waiting.foldl poll t

def pollTimes : Nat → Throttle α → Throttle α
  | 0, t => t
  | n + 1, t => pollTimes n t.pollAll

/-- The waiting calls look again and again until nothing changes. A round after which as many
wait as before changes nothing later, so one round more than there are calls is enough. -/
def settle (t : Throttle α) : Throttle α := pollTimes (t.waiting.length + 1) t

/-- The search of a running call ends. Its permit is back before the call returns. -/
def finish (t : Throttle α) (number : Nat) (result : α) : Throttle α :=
  { t.resolve number (t.ending number result) with gate := t.gate.finish number }

def resize (t : Throttle α) (limit : Nat) : Except Gate.Refusal Unit × Throttle α :=
  let (answer, gate) := t.gate.resize limit
  (answer, { t with gate := gate })

def close (t : Throttle α) : Throttle α := { t with gate := t.gate.close }

end Throttle

end GuardedSearch
