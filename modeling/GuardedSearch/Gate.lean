import GuardedSearch.PermitWord

/-!
# The admission gate

Permits for searches, handed out first come, first served. A permit that comes back goes to
the caller at the head of the queue, who holds it from then on even before looking again. A
shrink takes the permits that are free, and what is missing is owed: a search that ends while
permits are owed gives its permit up.

Permits that nobody queues for are counted in the word of a semaphore, which keeps the closed
state too. The queue is closed with it, and stays so whatever becomes of the word. A gate panics
when it has to count more than `maxPermits`, wherever they come from: a size, a growth, a search
that ends or a caller that goes away.
-/

namespace GuardedSearch

structure Gate where
  semaphore : Semaphore
  limit : Nat
  /-- The permits that are free, and whether the gate is closed. -/
  word : PermitWord
  /-- Permits still to be given up after a shrink. -/
  debt : Nat
  queueClosed : Bool
  /-- Callers without a permit, the first to come at the head. -/
  queue : List Nat
  /-- Callers that were handed a permit and have not looked since. -/
  granted : List Nat
  running : List Nat
deriving DecidableEq, Repr

namespace Gate

def maxPermits : Nat := 0x1FFFFFFFFFFFFFFF

/-- Why a gate does not take a size. -/
inductive Refusal where
  | notPositive
  | tooManyPermits
deriving DecidableEq, Repr

def opened (semaphore : Semaphore) (limit : Nat) : Gate :=
  ⟨semaphore, limit, .ofCount limit, 0, false, [], [], []⟩

def ofSemaphore (semaphore : Semaphore) (limit : Nat) : Except Refusal Gate :=
  if limit = 0 then .error .notPositive
  else if maxPermits < limit then .error .tooManyPermits
  else .ok (opened semaphore limit)

def free (g : Gate) : Nat := g.word.count

def closed (g : Gate) : Bool := g.word.closed

def held (g : Gate) : Nat := g.granted.length + g.running.length

/-- Permits come in: the callers at the head of the queue get one each, and what is left over
is free. The word is left alone when more are left over than a gate ever counts; it takes any
others, and carries over its end if it must. -/
def put (g : Gate) (permits : Nat) : Gate :=
  let spare := permits - g.queue.length
  { g with
    word := if maxPermits < spare then g.word else g.word.add spare
    queue := g.queue.drop permits
    granted := g.granted ++ g.queue.take permits }

/-- Whether the gate can count permits that come in, with those that are free. If not, it panics,
and what `put` does is done. -/
def canPut (g : Gate) (permits : Nat) : Bool :=
  permits ≤ g.queue.length || g.free + (permits - g.queue.length) ≤ maxPermits

/-- A waiting caller goes away. The permit of one that was handed a permit comes back in. -/
def leave (g : Gate) (caller : Nat) : Gate :=
  if caller ∈ g.granted then { g with granted := g.granted.erase caller }.put 1
  else { g with queue := g.queue.erase caller }

/-- Whether a waiting caller can go away without a panic. -/
def canLeave (g : Gate) (caller : Nat) : Bool := caller ∉ g.granted || g.canPut 1

inductive Look where
  | enter
  | wait
  | refused
deriving DecidableEq, Repr

/-- Whom a gate turns away: everyone while it is closed, and if its word is open again those who
have stood in the queue or would have to. -/
def turnsAway (g : Gate) (caller : Nat) : Bool :=
  g.closed || g.queueClosed && (caller ∈ g.granted || g.free == 0)

/-- A waiting caller looks at the gate. One that looks for the first time takes a free permit
or joins the queue. -/
def look (g : Gate) (caller : Nat) : Look × Gate :=
  if g.turnsAway caller then (.refused, g.leave caller)
  else if caller ∈ g.granted then
    (.enter, { g with
      granted := g.granted.erase caller
      running := g.running ++ [caller] })
  else if caller ∈ g.queue then (.wait, g)
  else if 0 < g.free then
    (.enter, { g with
      word := g.word.take
      running := g.running ++ [caller] })
  else (.wait, { g with queue := g.queue ++ [caller] })

/-- A search ends, and pays with its permit if permits are owed. -/
def finish (g : Gate) (caller : Nat) : Gate :=
  if caller ∈ g.running then
    let g := { g with running := g.running.erase caller }
    if 0 < g.debt then { g with debt := g.debt - 1 } else g.put 1
  else g

/-- Whether a search can end without a panic. -/
def canFinish (g : Gate) (caller : Nat) : Bool :=
  caller ∉ g.running || 0 < g.debt || g.canPut 1

/-- Sets the limit. Growing repays what is owed before permits come in; shrinking gives free
permits up; the same limit changes nothing, not even what is owed. The new limit stands even
when the gate cannot count the permits. -/
def resize (g : Gate) (limit : Nat) : Except Refusal Unit × Gate :=
  if limit = 0 then (.error .notPositive, g)
  else if limit = g.limit then (.ok (), g)
  else if g.limit < limit then
    let grow := limit - g.limit
    let repaid := min g.debt grow
    let owing := { g with limit := limit, debt := g.debt - repaid }
    (if owing.canPut (grow - repaid) then .ok () else .error .tooManyPermits,
      owing.put (grow - repaid))
  else
    let owed := g.debt + (g.limit - limit)
    let paid := min owed g.free
    (.ok (), { g with
      limit := limit
      debt := owed - paid
      word := g.word.forget g.semaphore paid })

/-- Turns away every caller that waits without a permit, and all that come later. -/
def close (g : Gate) : Gate :=
  { g with word := g.word.close, queueClosed := true, queue := [] }

end Gate

end GuardedSearch
