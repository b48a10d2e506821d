import GuardedSearch.Proofs.Catalog
import GuardedSearch.Proofs.LiteralTerms
import GuardedSearch.Proofs.TextOrder

/-!
# What is accepted is published

A commit takes a version before it builds its segment, so a build that fails would leave a gap.
`run_publishes` says that none does: what an addition checks of a document is all that a build can
fail on, but for the count of documents, and the keys of each dictionary come in the order in which
a writer wants them. So the commits of a run are counted without gaps, and what an index shows of
itself is the last of them.
-/

namespace GuardedSearch

-- ---------------------------------------------------------------------------
-- Documents
-- ---------------------------------------------------------------------------

/-- A document that an index is to accept: its first uri is a text, its resource numbers are
integers of 32 bits that are not negative, and its dates are in the years 0 to 9999. -/
structure Document.IsAcceptable (doc : Document) : Prop where
  uri : ∃ uri, doc.field? Field.uri = some (.text uri)
  numbers : ∀ name ∈ [Field.id, Field.ancestorIds], ∀ v ∈ doc.valuesOf name,
    ∃ n : Int32, v = .int32 n ∧ 0 ≤ n.toInt
  dates : ∀ field t, .date t ∈ doc.valuesOf field → t.HasFourDigitYear

/-- Only a date may lack an index term. -/
theorem FieldValue.exists_term_iff {v : FieldValue} :
    (∃ term, v.term = .ok term) ↔ ∀ t, v = .date t → t.HasFourDigitYear := by
  cases v with
  | date t =>
    rw [FieldValue.term, Instant.exists_ofInstant_iff]
    exact ⟨fun h _ heq => FieldValue.date.inj heq ▸ h, fun h => h t rfl⟩
  | _ => exact ⟨fun _ _ heq => (by cases heq), fun _ => ⟨_, rfl⟩⟩

namespace Index

variable {index : Index} {doc : Document}

theorem isResourceId_iff {v : FieldValue} :
    isResourceId v = true ↔ ∃ n : Int32, v = .int32 n ∧ 0 ≤ n.toInt := by
  cases v <;> simp [isResourceId]

theorem fault?_eq_none_iff_isAcceptable : fault? doc = none ↔ doc.IsAcceptable := by
  have hdates : doc.Indexable ↔ ∀ field t, .date t ∈ doc.valuesOf field → t.HasFourDigitYear := by
    simp only [Document.Indexable, FieldValue.exists_term_iff]
    constructor
    · exact fun h field t ht => h field _ ht t rfl
    · rintro h field _ hv t rfl
      exact h field t hv
  simp only [fault?_eq_none_iff, Option.isSome_iff_exists, uriOf?_eq_some, isResourceId_iff, hdates]
  constructor
  · rintro ⟨huri, hnumbers, hdates⟩
    exact ⟨huri, hnumbers, hdates⟩
  · exact fun h => ⟨h.uri, h.numbers, h.dates⟩

theorem exists_add_iff : (∃ index', index.add doc = .ok index') ↔ doc.IsAcceptable := by
  simp only [add_ok_iff, ← fault?_eq_none_iff_isAcceptable]
  simp

end Index

-- ---------------------------------------------------------------------------
-- Dictionaries
-- ---------------------------------------------------------------------------

/-- A writer of dictionaries. It is given one key after another, each with its number. -/
structure KeyWriter (δ ε : Type) where
  start : δ
  insert : δ → List UInt8 → Nat → Except ε δ

namespace KeyWriter

variable {δ ε : Type} {writer : KeyWriter δ ε}

def write (writer : KeyWriter δ ε) (keys : List (List UInt8)) : Except ε δ :=
  keys.zipIdx.foldlM (fun written e => writer.insert written e.1 e.2) writer.start

/-- A key that comes after all that have been written is not refused. -/
def TakesAscending (writer : KeyWriter δ ε) : Prop :=
  ∀ keys written key, writer.write keys = .ok written → (∀ k ∈ keys, k < key) →
    ∃ more, writer.insert written key keys.length = .ok more

theorem write_append_singleton (keys : List (List UInt8)) (key : List UInt8) :
    writer.write (keys ++ [key]) =
      writer.write keys >>= fun written => writer.insert written key keys.length := by
  rw [write, List.zipIdx_append, List.foldlM_append]
  simp [write]

theorem TakesAscending.exists_write (h : writer.TakesAscending) {keys : List (List UInt8)}
    (hkeys : keys.Pairwise (· < ·)) : ∃ written, writer.write keys = .ok written := by
  induction keys using List.reverseRecOn with
  | nil => exact ⟨writer.start, rfl⟩
  | append_singleton keys key ih =>
    obtain ⟨hfront, -, hlast⟩ := List.pairwise_append.mp hkeys
    obtain ⟨written, hwritten⟩ := ih hfront
    obtain ⟨more, hmore⟩ := h keys written key hwritten fun k hk =>
      hlast k hk key (List.mem_singleton_self _)
    exact ⟨more, by rw [write_append_singleton, hwritten]; exact hmore⟩

/-- Why a key is not written: it has been written before, or comes before the last. -/
inductive Fault where
  | duplicate (key : List UInt8)
  | outOfOrder (last key : List UInt8)

/-- Puts a key before those that have been written, the last of which stands first. -/
def insertAfter : List (List UInt8) → List UInt8 → Nat → Except Fault (List (List UInt8))
  | [], key, _ => .ok [key]
  | last :: before, key, _ =>
    if key = last then .error (.duplicate key)
    else if key < last then .error (.outOfOrder last key)
    else .ok (key :: last :: before)

/-- A writer that refuses every key that does not come after the last. -/
def strict : KeyWriter (List (List UInt8)) Fault := ⟨[], insertAfter⟩

theorem insertAfter_of_lt {written : List (List UInt8)} {key : List UInt8} (number : Nat)
    (h : ∀ k ∈ written, k < key) : insertAfter written key number = .ok (key :: written) := by
  cases written with
  | nil => rfl
  | cons last before =>
    have hlast := h last List.mem_cons_self
    have hne : key ≠ last := fun heq => List.lt_irrefl _ (heq ▸ hlast)
    rw [insertAfter, if_neg hne, if_neg (List.lt_asymm hlast)]

theorem eq_of_insertAfter {written more : List (List UInt8)} {key : List UInt8} {number : Nat}
    (h : insertAfter written key number = .ok more) : more = key :: written := by
  cases written with
  | nil => exact (Except.ok.inj h).symm
  | cons last before =>
    rw [insertAfter] at h
    split at h
    · cases h
    · split at h
      · cases h
      · exact (Except.ok.inj h).symm

theorem strict_write {keys written : List (List UInt8)} (h : strict.write keys = .ok written) :
    written = keys.reverse := by
  induction keys using List.reverseRecOn generalizing written with
  | nil => exact (Except.ok.inj h).symm
  | append_singleton keys key ih =>
    rw [write_append_singleton, Outcome.bind_ok] at h
    obtain ⟨before, hbefore, h⟩ := h
    rw [eq_of_insertAfter h, ih hbefore, List.reverse_append, List.reverse_singleton,
      List.singleton_append]

theorem strict_takesAscending : strict.TakesAscending := by
  intro keys written key h hkeys
  obtain rfl := strict_write h
  exact ⟨_, insertAfter_of_lt _ fun k hk => hkeys k (List.mem_reverse.mp hk)⟩

end KeyWriter

/-- The keys of a dictionary, as a writer is given them. -/
def FieldIndex.keys (index : FieldIndex) : List (List UInt8) := index.terms.keys.map Text.bytes

theorem FieldIndex.pairwise_keys (index : FieldIndex) : index.keys.Pairwise (· < ·) := by
  rw [keys, Table.keys, List.map_map, List.pairwise_map]
  exact index.terms.sorted.imp fun h => Text.bytes_lt_iff.mpr h

-- ---------------------------------------------------------------------------
-- Versions
-- ---------------------------------------------------------------------------

namespace Segment

theorem foldlM_add_version {docs : List Document} {s s' : Segment}
    (h : docs.foldlM add s = .ok s') : s'.version = s.version := by
  induction docs generalizing s with
  | nil =>
    rw [List.foldlM_nil, Outcome.pure_ok] at h
    rw [h]
  | cons doc docs ih =>
    rw [List.foldlM_cons, Outcome.bind_ok] at h
    obtain ⟨mid, hmid, h⟩ := h
    obtain ⟨-, fieldTerms, -, rfl⟩ := add_ok hmid
    rw [ih h]

theorem build_version {version : Nat} {docs : List Document} {s : Segment}
    (h : build version docs = .ok s) : s.version = version := foldlM_add_version h

end Segment

namespace Index

variable {index : Index}

theorem after_commits (index : Index) (operation : Operation) :
    (index.after operation).commits = index.commits + if operation = .commit then 1 else 0 := by
  cases operation with
  | add doc =>
    obtain ⟨staged, hstaged⟩ := index.after_add doc
    rw [hstaged]
    rfl
  | commit =>
    simp only [after, commit]
    split <;> rfl
  | _ => rfl

/-- Every commit is counted. -/
theorem run_commits (index : Index) (operations : List Operation) :
    (index.run operations).commits = index.commits + operations.count .commit := by
  induction operations generalizing index with
  | nil => rfl
  | cons operation rest ih =>
    rw [run_cons, ih, after_commits, List.count_cons]
    simp only [beq_iff_eq]
    omega

/-- What is published stays so until the next commit. -/
theorem run_current (index : Index) {operations : List Operation} (h : .commit ∉ operations) :
    (index.run operations).current = index.current := by
  induction operations generalizing index with
  | nil => rfl
  | cons operation rest ih =>
    obtain ⟨hfirst, hrest⟩ := not_or.mp (mt List.mem_cons.mpr h)
    rw [run_cons, ih _ hrest, after_current _ (Ne.symm hfirst)]

/-- A commit of documents that have ordinals publishes them under the number of the commit. -/
theorem Reachable.commit_published (h : index.Reachable)
    (hsize : index.staged.length ≤ Word.size32) :
    index.commit.1 = .ok (index.commits + 1) ∧ index.commit.2.version = index.commits + 1 ∧
      index.commit.2.docCount = index.staged.length := by
  obtain ⟨s, hs⟩ := (Segment.exists_build_iff (index.commits + 1) h.indexable).mpr hsize
  refine ⟨h.commit_ok_iff.mpr hsize, ?_, ?_⟩
  · rw [version, commit_current_of_ok hs, Segment.build_version hs]
  · rw [docCount, commit_current_of_ok hs, (Segment.build_represents hs).size_eq]

/-- What an index accepts it can publish. In a run of any additions, deletions and commits, a
document is accepted just when it is acceptable, and one that is refused changes nothing. A commit
succeeds when there is an ordinal for each staged document. It is numbered by the commits before
it, and until the next one the index shows this number and as many documents as were staged. The
keys of its dictionaries are taken by any writer that takes keys in the order of their bytes. -/
theorem run_publishes {operations : List Operation} (hrun : empty.run operations = index) :
    (∀ doc, (∃ index', index.add doc = .ok index') ↔ doc.IsAcceptable) ∧
    (∀ doc error, index.add doc = .error error → index.after (.add doc) = index) ∧
    (index.staged.length ≤ Word.size32 →
      index.commit.1 = .ok (operations.count .commit + 1) ∧
      (∀ later, .commit ∉ later →
        (index.commit.2.run later).version = operations.count .commit + 1 ∧
        (index.commit.2.run later).docCount = index.staged.length) ∧
      ∀ {δ ε : Type} (writer : KeyWriter δ ε), writer.TakesAscending →
        ∀ field dictionary, index.commit.2.current.index? field = some dictionary →
          ∃ written, writer.write dictionary.keys = .ok written) := by
  have hreachable : index.Reachable := hrun ▸ empty.evolves_run operations
  have hcommits : index.commits = operations.count .commit := by
    rw [← hrun, run_commits]
    exact Nat.zero_add _
  refine ⟨fun doc => exists_add_iff, fun doc error herror => by rw [after, herror], fun hsize => ?_⟩
  obtain ⟨hok, hversion, hcount⟩ := hreachable.commit_published hsize
  rw [hcommits] at hok hversion
  refine ⟨hok, fun later hlater => ?_, fun writer hwriter _ dictionary _ => ?_⟩
  · rw [version, docCount, run_current _ hlater]
    exact ⟨hversion, hcount⟩
  · exact hwriter.exists_write dictionary.pairwise_keys

/-- The third commit of a run of two documents, one of which has been replaced in its place. -/
theorem run_publishes_third : ∃ dictionary written,
    (Document.empty.addValue Field.uri (.text "/c")).IsAcceptable ∧
      (empty.run replaceFirst).after (.add .empty) = empty.run replaceFirst ∧
      (empty.run replaceFirst).commit.1 = .ok 3 ∧
      ((empty.run replaceFirst).commit.2.run [.delete "/a", .acquire]).version = 3 ∧
      ((empty.run replaceFirst).commit.2.run [.delete "/a", .acquire]).docCount = 2 ∧
      (empty.run replaceFirst).commit.2.current.index? Field.uri = some dictionary ∧
      dictionary.terms.keys = ["/a", "/b"] ∧
      KeyWriter.strict.write dictionary.keys = .ok written := by
  have hstaged : (empty.run replaceFirst).staged.length = 2 := by decide +kernel
  have hcount : replaceFirst.count .commit = 2 := by decide +kernel
  have hterms : ((empty.run replaceFirst).commit.2.current.index? Field.uri).map (·.terms.keys) =
      some ["/a", "/b"] := by
    decide +kernel
  obtain ⟨dictionary, hdictionary, hkeys⟩ := Option.map_eq_some_iff.mp hterms
  obtain ⟨hadd, hrefused, hcommit⟩ := @run_publishes _ replaceFirst rfl
  obtain ⟨hok, hshown, hwrites⟩ := hcommit (by rw [hstaged]; decide)
  obtain ⟨hversion, hdocs⟩ := hshown [.delete "/a", .acquire] (by decide)
  obtain ⟨written, hwritten⟩ :=
    hwrites _ KeyWriter.strict_takesAscending Field.uri dictionary hdictionary
  rw [hcount] at hok hversion
  exact ⟨dictionary, written, (hadd _).mp ⟨_, rfl⟩, hrefused .empty _ rfl, hok, hversion,
    hdocs.trans hstaged, hdictionary, hkeys, hwritten⟩

end Index

end GuardedSearch
