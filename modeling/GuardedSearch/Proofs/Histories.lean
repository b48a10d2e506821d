import GuardedSearch.Index
import GuardedSearch.Proofs.Postings
import Mathlib.Logic.Relation

/-!
# Histories of an index

Documents are added and deleted, commits publish them, snapshots are acquired and released, in
any order. What an open snapshot shows does not change on the way (`Evolves.shows`), and every
segment of an index that began empty shows at most as many documents as there are ordinals
(`Reachable.built`).
-/

namespace GuardedSearch

-- ---------------------------------------------------------------------------
-- Counts
-- ---------------------------------------------------------------------------

namespace Segment

/-- A segment that shows some documents, with an ordinal for each. -/
def Built (s : Segment) : Prop := ∃ docs, s.Represents docs ∧ docs.length ≤ Word.size32

theorem size_build_le {version : Nat} {docs : List Document} {s : Segment}
    (h : build version docs = .ok s) : s.docs.size ≤ Word.size32 := by
  refine build_induction (P := fun s _ => s.docs.size ≤ Word.size32) (fun _ => Nat.zero_le _) ?_ h
  intro s s' docs doc _ hadd
  obtain ⟨hfew, fieldTerms, -, rfl⟩ := add_ok hadd
  rw [Array.size_push]
  exact hfew

theorem initial_built : initial.Built := ⟨[], initial_represents 0, Nat.zero_le _⟩

theorem build_built {version : Nat} {docs : List Document} {s : Segment}
    (h : build version docs = .ok s) : s.Built := by
  refine ⟨docs, build_represents h, ?_⟩
  rw [← (build_represents h).size_eq]
  exact size_build_le h

end Segment

namespace Index

open Relation (ReflTransGen)

variable {index index' : Index} {snapshot : SnapshotHandle} {s : Segment}

-- ---------------------------------------------------------------------------
-- One operation
-- ---------------------------------------------------------------------------

/-- What happens to an index. A failed addition changes nothing; a failed commit counts. -/
inductive Acts : Index → Index → Prop
  | add {index index' : Index} (doc : Document) (h : index.add doc = .ok index') : Acts index index'
  | delete (index : Index) (uri : String) : Acts index (index.delete uri).2
  | commit (index : Index) : Acts index index.commit.2
  | acquire (index : Index) : Acts index index.acquire.2
  | release (index : Index) (snapshot : SnapshotHandle) : Acts index (index.release snapshot)

theorem segment?_eq_iff : index.segment? snapshot = .ok s ↔
    index.pinned.lookup snapshot.id = some s := by
  rw [segment?]
  cases index.pinned.lookup snapshot.id <;> simp

theorem add_pinned {doc : Document} (h : index.add doc = .ok index') :
    index'.pinned = index.pinned ∧ index'.acquired = index.acquired ∧
      index'.current = index.current := by
  rw [add] at h
  split at h
  · cases h
  · cases h
    exact ⟨rfl, rfl, rfl⟩

theorem commit_pinned (index : Index) : index.commit.2.pinned = index.pinned ∧
    index.commit.2.acquired = index.acquired := by
  simp only [commit]
  split <;> exact ⟨rfl, rfl⟩

theorem lookup_released (pinned : List (Nat × Segment)) (id released : Nat) :
    (pinned.filter fun e => e.1 ≠ released).lookup id =
      if id = released then none else pinned.lookup id := by
  induction pinned with
  | nil => simp
  | cons e pinned ih =>
    obtain ⟨first, segment⟩ := e
    by_cases hreleased : first = released
    · subst hreleased
      rw [List.filter_cons_of_neg (by simp), ih, List.lookup_cons]
      by_cases hid : id = first
      · rw [if_pos hid, if_pos hid]
      · rw [if_neg hid, if_neg hid, beq_eq_false_iff_ne.mpr hid]
    · rw [List.filter_cons_of_pos (by simpa using hreleased), List.lookup_cons, List.lookup_cons,
        ih]
      by_cases hid : id = first
      · subst hid
        simp [hreleased]
      · rw [beq_eq_false_iff_ne.mpr hid]

theorem commit_current_of_ok {segment : Segment}
    (h : Segment.build (index.commits + 1) index.staged = .ok segment) :
    index.commit.2.current = segment := by
  simp only [commit, h]

theorem commit_current_of_error {e : EngineError}
    (h : Segment.build (index.commits + 1) index.staged = .error e) :
    index.commit.2.current = index.current := by
  simp only [commit, h]

/-- No operation changes what a snapshot acquired before it shows; a release may close it. -/
theorem Acts.shows (h : Acts index index') (hid : snapshot.id ≤ index.acquired)
    (hshows : index'.segment? snapshot = .ok s) : index.segment? snapshot = .ok s := by
  rw [segment?_eq_iff] at hshows ⊢
  cases h with
  | add doc h => rwa [← (add_pinned h).1]
  | delete uri => exact hshows
  | commit => rwa [← (commit_pinned index).1]
  | acquire =>
    have hne : (snapshot.id == index.acquired + 1) = false := by
      rw [beq_eq_false_iff_ne]
      omega
    change List.lookup snapshot.id ((index.acquired + 1, index.current) :: index.pinned) = _
      at hshows
    simpa [List.lookup_cons, hne] using hshows
  | release released =>
    change List.lookup _ (index.pinned.filter _) = _ at hshows
    rw [lookup_released] at hshows
    split at hshows
    · cases hshows
    · exact hshows

theorem Acts.acquired_le (h : Acts index index') : index.acquired ≤ index'.acquired := by
  cases h with
  | add doc h => exact Nat.le_of_eq (add_pinned h).2.1.symm
  | delete uri => exact Nat.le_refl _
  | commit => exact Nat.le_of_eq (commit_pinned index).2.symm
  | acquire => exact Nat.le_succ _
  | release released => exact Nat.le_refl _

-- ---------------------------------------------------------------------------
-- Histories
-- ---------------------------------------------------------------------------

/-- An index after any operations in any order. -/
def Evolves : Index → Index → Prop := ReflTransGen Acts

/-- An index that began empty. -/
def Reachable (index : Index) : Prop := Evolves empty index

theorem Evolves.acquired_le (h : Evolves index index') : index.acquired ≤ index'.acquired := by
  induction h with
  | refl => exact Nat.le_refl _
  | tail _ hact ih => exact Nat.le_trans ih hact.acquired_le

/-- What an open snapshot shows it showed when it was acquired. -/
theorem Evolves.shows (h : Evolves index index') (hid : snapshot.id ≤ index.acquired)
    (hshows : index'.segment? snapshot = .ok s) : index.segment? snapshot = .ok s := by
  induction h with
  | refl => exact hshows
  | tail hrun hact ih => exact ih (hact.shows (Nat.le_trans hid (Evolves.acquired_le hrun)) hshows)

/-- The segments of an index: the one published last and those of open snapshots. -/
def HasSegment (index : Index) (s : Segment) : Prop :=
  s = index.current ∨ ∃ id, (id, s) ∈ index.pinned

theorem Acts.built (h : Acts index index') (hbuilt : ∀ s, index.HasSegment s → s.Built) :
    ∀ s, index'.HasSegment s → s.Built := by
  intro s hs
  cases h with
  | add doc h =>
    obtain ⟨hpinned, -, hcurrent⟩ := add_pinned h
    rw [HasSegment, hpinned, hcurrent] at hs
    exact hbuilt s hs
  | delete uri => exact hbuilt s hs
  | commit =>
    rcases hs with rfl | hs
    · cases hbuild : Segment.build (index.commits + 1) index.staged with
      | ok segment =>
        rw [commit_current_of_ok hbuild]
        exact Segment.build_built hbuild
      | error e =>
        rw [commit_current_of_error hbuild]
        exact hbuilt _ (.inl rfl)
    · rw [(commit_pinned index).1] at hs
      exact hbuilt s (.inr hs)
  | acquire =>
    rcases hs with rfl | ⟨id, hs⟩
    · exact hbuilt _ (.inl rfl)
    · rcases List.mem_cons.mp hs with hs | hs
      · obtain ⟨-, rfl⟩ := Prod.mk.inj hs
        exact hbuilt _ (.inl rfl)
      · exact hbuilt s (.inr ⟨id, hs⟩)
  | release released =>
    rcases hs with rfl | ⟨id, hs⟩
    · exact hbuilt _ (.inl rfl)
    · exact hbuilt s (.inr ⟨id, (List.mem_filter.mp hs).1⟩)

/-- Every segment of an index that began empty is built of documents. -/
theorem Reachable.built (h : index.Reachable) : ∀ s, index.HasSegment s → s.Built := by
  induction h with
  | refl =>
    rintro s (rfl | ⟨id, hs⟩)
    · exact Segment.initial_built
    · cases hs
  | tail _ hact ih => exact hact.built ih

end Index

end GuardedSearch
