import GuardedSearch.Proofs.Acceptance
import GuardedSearch.Proofs.NaiveScan

/-!
# Snapshots of a run

A run is a list of operations on one index. `run_snapshot` says what a snapshot shows all along
a run: until it is released the documents that were published when it was acquired, and nothing
after that, whatever else happens to the index.
-/

namespace GuardedSearch.Index

/-- What changes an index. -/
inductive Operation where
  | add (doc : Document)
  | delete (uri : String)
  | commit
  | acquire
  | release (snapshot : SnapshotHandle)
deriving DecidableEq

/-- An index after an operation; a document that is refused leaves it as it is. -/
def after (index : Index) : Operation → Index
  | .add doc => match index.add doc with
    | .ok index => index
    | .error _ => index
  | .delete uri => (index.delete uri).2
  | .commit => index.commit.2
  | .acquire => index.acquire.2
  | .release snapshot => index.release snapshot

def run (index : Index) (operations : List Operation) : Index := operations.foldl after index

variable {index : Index} {snapshot : SnapshotHandle} {s : Segment}

@[simp]
theorem run_nil (index : Index) : index.run [] = index := rfl

@[simp]
theorem run_cons (index : Index) (operation : Operation) (rest : List Operation) :
    index.run (operation :: rest) = (index.after operation).run rest := rfl

theorem evolves_after (index : Index) (operation : Operation) :
    index.Evolves (index.after operation) := by
  cases operation with
  | add doc =>
    rw [after]
    cases h : index.add doc with
    | ok index' => exact .single (.add doc h)
    | error e => exact .refl
  | delete uri => exact .single (.delete index uri)
  | commit => exact .single (.commit index)
  | acquire => exact .single (.acquire index)
  | release snapshot => exact .single (.release index snapshot)

theorem evolves_run (index : Index) (operations : List Operation) :
    index.Evolves (index.run operations) := by
  induction operations generalizing index with
  | nil => exact .refl
  | cons operation rest ih => exact (index.evolves_after operation).trans (ih _)

-- ---------------------------------------------------------------------------
-- What is pinned
-- ---------------------------------------------------------------------------

/-- An addition changes only what is staged, if anything. -/
theorem after_add (index : Index) (doc : Document) :
    ∃ staged, index.after (.add doc) = { index with staged := staged } := by
  rw [after]
  cases h : index.add doc with
  | ok index' =>
    obtain ⟨-, rfl⟩ := add_ok_iff.mp h
    exact ⟨_, rfl⟩
  | error e => exact ⟨index.staged, rfl⟩

/-- Only acquisitions and releases change which segments are pinned. -/
theorem after_pinned (index : Index) {operation : Operation} (hacquire : operation ≠ .acquire)
    (hrelease : ∀ snapshot, operation ≠ .release snapshot) :
    (index.after operation).pinned = index.pinned := by
  cases operation with
  | add doc =>
    obtain ⟨staged, h⟩ := index.after_add doc
    rw [h]
  | delete uri => rfl
  | commit => exact (commit_pinned index).1
  | acquire => exact absurd rfl hacquire
  | release snapshot => exact absurd rfl (hrelease snapshot)

theorem release_eq_iff {released : SnapshotHandle} :
    Operation.release snapshot = .release released ↔ snapshot.id = released.id := by
  cases snapshot
  cases released
  simp

/-- An operation leaves an acquired snapshot as it is, unless it releases it. -/
theorem lookup_after (hid : snapshot.id ≤ index.acquired) (operation : Operation) :
    (index.after operation).pinned.lookup snapshot.id =
      if operation = .release snapshot then none else index.pinned.lookup snapshot.id := by
  cases operation with
  | acquire =>
    have hne : (snapshot.id == index.acquired + 1) = false := by
      rw [beq_eq_false_iff_ne]
      exact Nat.ne_of_lt (Nat.lt_succ_of_le hid)
    simp [after, acquire, List.lookup_cons, hne]
  | release released =>
    change List.lookup _ (index.pinned.filter _) = _
    rw [lookup_released]
    simp only [release_eq_iff, eq_comm]
  | _ => rw [after_pinned _ (by simp) (by simp), if_neg (by simp)]

/-- A run leaves an acquired snapshot as it is until it releases it. -/
theorem lookup_run (hid : snapshot.id ≤ index.acquired) (operations : List Operation) :
    (index.run operations).pinned.lookup snapshot.id =
      if .release snapshot ∈ operations then none else index.pinned.lookup snapshot.id := by
  induction operations generalizing index with
  | nil => simp
  | cons operation rest ih =>
    have hid' := Nat.le_trans hid (index.evolves_after operation).acquired_le
    rw [run_cons, ih hid', lookup_after hid]
    grind

-- ---------------------------------------------------------------------------
-- What is shown
-- ---------------------------------------------------------------------------

/-- Every read through a snapshot is answered from this segment. -/
structure Answers (index : Index) (snapshot : SnapshotHandle) (s : Segment) : Prop where
  execute : ∀ query limit sorting cache, index.execute snapshot query limit sorting cache =
    (.ok (s.top query limit sorting cache).1, (s.top query limit sorting cache).2)
  fetch : ∀ doc selector, index.fetch snapshot doc selector = s.fetch doc selector
  lookup : ∀ field term, index.lookup snapshot field term =
    .ok ((s.withTerm field term).first?.map DocId.mk)
  enumerate : ∀ field pattern, index.enumerate snapshot field pattern =
    .ok ((s.termsMatching field pattern).map fun e => ⟨e.1, e.2⟩)

/-- Every read through a snapshot fails since the snapshot is not open. -/
structure Refuses (index : Index) (snapshot : SnapshotHandle) : Prop where
  execute : ∀ query limit sorting cache, index.execute snapshot query limit sorting cache =
    (.error (.unknownSnapshot snapshot.id), cache)
  fetch : ∀ doc selector, index.fetch snapshot doc selector =
    .error (.unknownSnapshot snapshot.id)
  lookup : ∀ field term, index.lookup snapshot field term = .error (.unknownSnapshot snapshot.id)
  enumerate : ∀ field pattern, index.enumerate snapshot field pattern =
    .error (.unknownSnapshot snapshot.id)

/-- Every read through a snapshot is answered as by another index. -/
structure ReadsAs (index other : Index) (snapshot : SnapshotHandle) : Prop where
  execute : index.execute snapshot = other.execute snapshot
  fetch : index.fetch snapshot = other.fetch snapshot
  lookup : index.lookup snapshot = other.lookup snapshot
  enumerate : index.enumerate snapshot = other.enumerate snapshot

theorem answers_of_lookup (h : index.pinned.lookup snapshot.id = some s) :
    index.Answers snapshot s := by
  have hsegment := segment?_eq_iff.mpr h
  constructor
  · exact execute_eq hsegment
  · intro doc selector
    rw [fetch, hsegment]
    rfl
  · intro field term
    rw [lookup, hsegment]
    rfl
  · intro field pattern
    rw [enumerate, hsegment]
    rfl

theorem refuses_of_lookup (h : index.pinned.lookup snapshot.id = none) :
    index.Refuses snapshot := by
  have hsegment : index.segment? snapshot = .error (.unknownSnapshot snapshot.id) := by
    rw [segment?, h]
  constructor
  · intro query limit sorting cache
    rw [execute, hsegment]
    rfl
  · intro doc selector
    rw [fetch, hsegment]
    rfl
  · intro field term
    rw [lookup, hsegment]
    rfl
  · intro field pattern
    rw [enumerate, hsegment]
    rfl

theorem readsAs_of_lookup {other : Index}
    (h : index.pinned.lookup snapshot.id = other.pinned.lookup snapshot.id) :
    index.ReadsAs other snapshot := by
  have hsegment : index.segment? snapshot = other.segment? snapshot := by
    rw [segment?, segment?, h]
  constructor
  · funext query limit sorting
    rw [execute, execute, hsegment]
  · funext doc selector
    rw [fetch, fetch, hsegment]
  · funext field term
    rw [lookup, lookup, hsegment]
  · funext field pattern
    rw [enumerate, enumerate, hsegment]

theorem Refuses.lookup_pinned (h : index.Refuses snapshot) :
    index.pinned.lookup snapshot.id = none := by
  cases hlookup : index.pinned.lookup snapshot.id with
  | none => rfl
  | some s => cases (h.lookup "" "").symm.trans ((answers_of_lookup hlookup).lookup "" "")

theorem lookup_eq_none_iff {pinned : List (Nat × Segment)} {id : Nat} :
    pinned.lookup id = none ↔ ∀ e ∈ pinned, e.1 ≠ id := by
  rw [List.lookup_eq_none_iff]
  simp only [bne_iff_ne, ne_comm]

/-- To release a snapshot that is not open changes nothing. -/
theorem Refuses.release (h : index.Refuses snapshot) : index.release snapshot = index := by
  have hnone := lookup_eq_none_iff.mp h.lookup_pinned
  rw [Index.release, List.filter_eq_self.mpr]
  intro e he
  exact decide_eq_true (hnone e he)

theorem release_readsAs (index : Index) {other : SnapshotHandle} (h : other.id ≠ snapshot.id) :
    (index.release other).ReadsAs index snapshot := by
  apply readsAs_of_lookup
  change List.lookup _ (index.pinned.filter _) = _
  rw [lookup_released, if_neg h.symm]

-- ---------------------------------------------------------------------------
-- What is published
-- ---------------------------------------------------------------------------

/-- The documents that a run publishes last: those that are staged at its last commit of no more
documents than there are ordinals, or `docs` if it has no such commit. -/
def published (index : Index) (docs : List Document) : List Operation → List Document
  | [] => docs
  | .commit :: rest =>
    (index.after .commit).published
      (if index.staged.length ≤ Word.size32 then index.staged else docs) rest
  | operation :: rest => (index.after operation).published docs rest

theorem after_current (index : Index) {operation : Operation} (h : operation ≠ .commit) :
    (index.after operation).current = index.current := by
  cases operation with
  | add doc =>
    obtain ⟨staged, hstaged⟩ := index.after_add doc
    rw [hstaged]
  | delete uri => rfl
  | commit => exact absurd rfl h
  | acquire => rfl
  | release snapshot => rfl

/-- The segment that is current is built of the documents that were published last. -/
theorem Reachable.build_published (h : index.Reachable) {docs : List Document}
    (hdocs : ∃ version, Segment.build version docs = .ok index.current)
    (operations : List Operation) : ∃ version,
      Segment.build version (index.published docs operations) =
        .ok (index.run operations).current := by
  induction operations generalizing index docs with
  | nil => exact hdocs
  | cons operation rest ih =>
    have hafter := h.trans (index.evolves_after operation)
    by_cases hcommit : operation = .commit
    · subst hcommit
      rw [run_cons, published]
      apply ih hafter
      by_cases hsize : index.staged.length ≤ Word.size32
      · obtain ⟨s, hs⟩ := (Segment.exists_build_iff (index.commits + 1) h.indexable).mpr hsize
        rw [if_pos hsize]
        exact ⟨_, hs.trans (congrArg _ (commit_current_of_ok hs).symm)⟩
      · rw [if_neg hsize]
        cases hbuild : Segment.build (index.commits + 1) index.staged with
        | ok s => exact absurd ((Segment.exists_build_iff _ h.indexable).mp ⟨s, hbuild⟩) hsize
        | error e =>
          rw [after, commit_current_of_error hbuild]
          exact hdocs
    · rw [← index.after_current hcommit] at hdocs
      rw [run_cons, published]
      · exact ih hafter hdocs
      · exact hcommit

/-- What a run publishes has been accepted. -/
theorem Reachable.published_accepted (h : index.Reachable) {docs : List Document}
    (hdocs : ∀ doc ∈ docs, fault? doc = none) (operations : List Operation) :
    ∀ doc ∈ index.published docs operations, fault? doc = none := by
  induction operations generalizing index docs with
  | nil => exact hdocs
  | cons operation rest ih =>
    have hafter := h.trans (index.evolves_after operation)
    by_cases hcommit : operation = .commit
    · subst hcommit
      rw [published]
      apply ih hafter
      split
      · exact h.accepted
      · exact hdocs
    · rw [published]
      · exact ih hafter hdocs
      · exact hcommit

-- ---------------------------------------------------------------------------
-- What is open
-- ---------------------------------------------------------------------------

/-- The handles that a run acquires and does not release after. -/
def openHandles (index : Index) : List Operation → List SnapshotHandle
  | [] => []
  | .acquire :: rest =>
    if .release index.acquire.1 ∈ rest then (index.after .acquire).openHandles rest
    else index.acquire.1 :: (index.after .acquire).openHandles rest
  | operation :: rest => (index.after operation).openHandles rest

/-- A run leaves open what was open and it does not release, and what it acquires and does not
release. -/
theorem openSnapshots_run (index : Index) (operations : List Operation) :
    (index.run operations).openSnapshots =
      (index.pinned.filter fun e => Operation.release ⟨e.1⟩ ∉ operations).length +
        (index.openHandles operations).length := by
  induction operations generalizing index with
  | nil => simp [openSnapshots, openHandles]
  | cons operation rest ih =>
    rw [run_cons, ih]
    cases operation with
    | acquire =>
      have hpinned : (index.after .acquire).pinned =
          (index.acquire.1.id, index.current) :: index.pinned := rfl
      rw [openHandles, hpinned]
      by_cases hreleased : .release index.acquire.1 ∈ rest
      · rw [if_pos hreleased, List.filter_cons_of_neg (by simpa using hreleased)]
        simp
      · rw [if_neg hreleased, List.filter_cons_of_pos (by simpa using hreleased)]
        simp
        omega
    | release snapshot =>
      rw [openHandles]
      · have hrest (e : Nat × Segment) :
            (decide (.release ⟨e.1⟩ ∉ rest) && decide (e.1 ≠ snapshot.id)) =
              decide (.release ⟨e.1⟩ ∉ .release snapshot :: rest) := by
          rw [← Bool.decide_and]
          apply decide_eq_decide.mpr
          rw [List.mem_cons, not_or, release_eq_iff, and_comm]
        simp only [after, release, List.filter_filter, hrest]
      · simp
    | _ =>
      rw [after_pinned _ (by simp) (by simp), openHandles]
      · simp
      · simp

-- ---------------------------------------------------------------------------
-- Runs
-- ---------------------------------------------------------------------------

theorem acquire_pins {opened : Index} (h : index.acquire = (snapshot, opened)) :
    snapshot.id = opened.acquired ∧ opened.pinned.lookup snapshot.id = some index.current := by
  obtain ⟨rfl, rfl⟩ := Prod.mk.inj h
  exact ⟨rfl, by simp⟩

/-- A snapshot shows what was current when it was acquired, all along a run that does not release
it. -/
theorem acquire_shows {opened : Index} {later : List Operation}
    (h : index.acquire = (snapshot, opened)) (hopen : .release snapshot ∉ later) :
    (opened.run later).segment? snapshot = .ok index.current := by
  obtain ⟨hid, hpinned⟩ := acquire_pins h
  rw [segment?_eq_iff, lookup_run (Nat.le_of_eq hid), if_neg hopen, hpinned]

/-- So it shows the documents that were published last before it was acquired, and an index has
accepted all of them. -/
theorem acquire_shows_published {operations later : List Operation} {opened : Index}
    (h : (empty.run operations).acquire = (snapshot, opened)) (hopen : .release snapshot ∉ later) :
    ∃ s, (opened.run later).segment? snapshot = .ok s ∧
      s.Represents (empty.published [] operations) ∧
      ∀ doc ∈ empty.published [] operations, fault? doc = none := by
  have hempty : empty.Reachable := .refl
  have hinitial : Segment.build 0 [] = .ok empty.current := rfl
  obtain ⟨version, hbuild⟩ := hempty.build_published ⟨0, hinitial⟩ operations
  exact ⟨_, acquire_shows h hopen, Segment.build_represents hbuild,
    hempty.published_accepted (List.forall_mem_nil _) operations⟩

/-- A snapshot in a run. Every read through it is answered from the segment of the documents that
were published when it was acquired, until it is released, whatever else happens. After that
every read is refused. No other acquisition has the same handle. To release another handle
changes nothing for it, and to release one that is not open changes nothing at all. As many
snapshots are open as were acquired and not released. -/
theorem run_snapshot {before later : List Operation} {snapshot : SnapshotHandle} {opened : Index}
    (h : (empty.run before).acquire = (snapshot, opened)) :
    (∃ version s, Segment.build version (empty.published [] before) = .ok s ∧
      opened.Answers snapshot s ∧
      ∀ query limit sorting cache, WildcardFilter.OwnCells query.filters →
        cache.Fresh query.filters →
          (opened.execute snapshot query limit sorting cache).1 =
            .ok ⟨((s.inOrder sorting (Segment.scan (empty.published [] before) query.accepts)).take
                limit).map DocId.mk,
              (Segment.scan (empty.published [] before) query.accepts).length⟩) ∧
    (.release snapshot ∉ later → (opened.run later).ReadsAs opened snapshot) ∧
    (.release snapshot ∈ later → (opened.run later).Refuses snapshot) ∧
    (opened.run later).acquire.1.id ≠ snapshot.id ∧
    (∀ other : SnapshotHandle, other.id ≠ snapshot.id →
      ((opened.run later).release other).ReadsAs (opened.run later) snapshot) ∧
    (∀ other, (opened.run later).Refuses other →
      (opened.run later).release other = opened.run later) ∧
    (empty.run before).openSnapshots = (empty.openHandles before).length := by
  obtain ⟨hid, hpinned⟩ := acquire_pins h
  have hempty : empty.Reachable := .refl
  have hinitial : Segment.build 0 [] = .ok empty.current := rfl
  obtain ⟨version, hbuild⟩ := hempty.build_published ⟨0, hinitial⟩ before
  have hshown := answers_of_lookup hpinned
  have hlookup := lookup_run (Nat.le_of_eq hid) later
  refine ⟨⟨version, _, hbuild, hshown, ?_⟩, ?_, ?_, ?_, ?_, ?_, ?_⟩
  · intro query limit sorting cache hown hfresh
    obtain ⟨htop, -⟩ := Segment.top_settled (Segment.build_represents hbuild) hown hfresh.settled
      (fun _ hf => hf) limit sorting
    rw [hshown.execute, htop]
  · intro hopen
    apply readsAs_of_lookup
    rw [hlookup, if_neg hopen]
  · intro hreleased
    apply refuses_of_lookup
    rw [hlookup, if_pos hreleased]
  · rw [hid]
    exact Nat.ne_of_gt (Nat.lt_succ_of_le (opened.evolves_run later).acquired_le)
  · intro other hother
    exact release_readsAs _ hother
  · intro other hrefuses
    exact hrefuses.release
  · rw [openSnapshots_run]
    simp [empty]

/-- One document is published. -/
def publishOne : List Operation :=
  [.add (Document.empty.addValue Field.uri (.text "/a")), .commit]

/-- A snapshot shows a document until it is released, though its deletion has been published. -/
theorem run_snapshot_deleted : ∃ opened version s,
    (empty.run publishOne).acquire = (⟨1⟩, opened) ∧
      Segment.build version (empty.published [] publishOne) = .ok s ∧ opened.Answers ⟨1⟩ s ∧
      (opened.run [.delete "/a", .commit]).docCount = 0 ∧
      (opened.run [.delete "/a", .commit]).ReadsAs opened ⟨1⟩ ∧
      (opened.run [.delete "/a", .commit, .release ⟨1⟩]).Refuses ⟨1⟩ := by
  have h : (empty.run publishOne).acquire = (⟨1⟩, (empty.run publishOne).acquire.2) := rfl
  obtain ⟨⟨version, s, hbuild, hshown, -⟩, hkept, -⟩ := run_snapshot h
  obtain ⟨-, -, hrefused, -⟩ := run_snapshot h
  exact ⟨_, version, s, h, hbuild, hshown, by decide, hkept (by decide), hrefused (by decide)⟩

end GuardedSearch.Index
