import GuardedSearch.Proofs.Snapshots
import GuardedSearch.Proofs.TranslatedQueries

/-!
# Documents by uri

An index keeps its documents as an ordered map from uri to document. `Catalog` is that map and
`Holdings` the two that an index has, the staged one and the one that was published last.
`run_keeps_holdings` says that a run of an index follows the same run of its holdings, and that
a snapshot shows the published catalog, each document at its place.
-/

namespace GuardedSearch

theorem Index.uriOf?_eq_some {doc : Document} {uri : String} :
    uriOf? doc = some uri ↔ doc.field? Field.uri = some (.text uri) := by
  rw [uriOf?]
  cases doc.field? Field.uri with
  | none => simp
  | some v => cases v <;> simp

-- ---------------------------------------------------------------------------
-- Catalogs
-- ---------------------------------------------------------------------------

/-- Documents in an order, each under its first uri, and no two under one. -/
structure Catalog where
  entries : List (String × Document)
  keyed : ∀ e ∈ entries, Index.uriOf? e.2 = some e.1
  distinct : (entries.map (·.1)).Nodup

namespace Catalog

variable {c : Catalog} {uri : String} {doc : Document}

def empty : Catalog := ⟨[], by simp, .nil⟩

def uris (c : Catalog) : List String := c.entries.map (·.1)

def docs (c : Catalog) : List Document := c.entries.map (·.2)

/-- Puts a document in the place of the one with its uri, or at the end if there is none. -/
def putEntries (uri : String) (doc : Document) (entries : List (String × Document)) :
    List (String × Document) :=
  if uri ∈ entries.map (·.1) then entries.map fun e => if e.1 = uri then (uri, doc) else e
  else entries ++ [(uri, doc)]

theorem keys_putEntries (uri : String) (doc : Document) (entries : List (String × Document)) :
    (putEntries uri doc entries).map (·.1) =
      if uri ∈ entries.map (·.1) then entries.map (·.1) else entries.map (·.1) ++ [uri] := by
  rw [putEntries]
  split
  · rw [List.map_map]
    refine List.map_congr_left fun e _ => ?_
    simp only [Function.comp]
    split
    · next h => exact h.symm
    · rfl
  · rw [List.map_append, List.map_singleton]

theorem mem_putEntries {entries : List (String × Document)} {e : String × Document}
    (h : e ∈ putEntries uri doc entries) : e = (uri, doc) ∨ e ∈ entries := by
  rw [putEntries] at h
  split at h
  · obtain ⟨old, hold, rfl⟩ := List.mem_map.mp h
    split
    · exact .inl rfl
    · exact .inr hold
  · rcases List.mem_append.mp h with h | h
    · exact .inr h
    · exact .inl (List.mem_singleton.mp h)

/-- Enters a document under its uri. -/
def put (c : Catalog) (uri : String) (doc : Document) (h : Index.uriOf? doc = some uri) :
    Catalog where
  entries := putEntries uri doc c.entries
  keyed e he := by
    rcases mem_putEntries he with rfl | he
    · exact h
    · exact c.keyed e he
  distinct := by
    rw [keys_putEntries]
    split
    · exact c.distinct
    · next hnew => exact c.distinct.append (by simp) (by simpa using hnew)

/-- Takes out the document with a uri and leaves the rest in its order. -/
def erase (c : Catalog) (uri : String) : Catalog where
  entries := c.entries.eraseP fun e => e.1 == uri
  keyed e he := c.keyed e (List.mem_of_mem_eraseP he)
  distinct := c.distinct.sublist (List.eraseP_sublist.map _)

-- ---------------------------------------------------------------------------
-- Staged documents
-- ---------------------------------------------------------------------------

/-- The linear search for a uri finds the document of the catalog with this uri. -/
theorem stage_docs (c : Catalog) (h : Index.uriOf? doc = some uri) :
    Index.stage doc c.docs = (c.put uri doc h).docs := by
  obtain ⟨entries, hkeyed, hdistinct⟩ := c
  change Index.stage doc (entries.map (·.2)) = (putEntries uri doc entries).map (·.2)
  induction entries with
  | nil => rfl
  | cons e rest ih =>
    obtain ⟨he, hrest⟩ := List.forall_mem_cons.mp hkeyed
    obtain ⟨hnew, hdistinct⟩ := List.nodup_cons.mp hdistinct
    rw [List.map_cons, Index.stage]
    by_cases hsame : e.1 = uri
    · have hkept : rest.map (fun e => if e.1 = uri then (uri, doc) else e) = rest := by
        refine (List.map_congr_left fun e' he' => if_neg fun heq => hnew ?_).trans
          (List.map_id rest)
        exact List.mem_map.mpr ⟨e', he', heq.trans hsame.symm⟩
      rw [if_pos (by rw [he, h, hsame]), putEntries, if_pos (by simp [hsame]), List.map_cons,
        if_pos hsame, hkept, List.map_cons]
    · have hmem : uri ∈ (e :: rest).map (·.1) ↔ uri ∈ rest.map (·.1) := by
        rw [List.map_cons, List.mem_cons, or_iff_right (Ne.symm hsame)]
      rw [if_neg (by simpa [he, h] using hsame), ih hrest hdistinct, putEntries, putEntries]
      simp only [hmem]
      split
      · rw [List.map_cons, List.map_cons, if_neg hsame]
      · rw [List.cons_append, List.map_cons]

theorem filter_docs (c : Catalog) (uri : String) :
    (c.docs.filter fun d => Index.uriOf? d ≠ some uri) = (c.erase uri).docs := by
  obtain ⟨entries, hkeyed, hdistinct⟩ := c
  change (entries.map (·.2)).filter _ = (entries.eraseP _).map (·.2)
  induction entries with
  | nil => rfl
  | cons e rest ih =>
    obtain ⟨he, hrest⟩ := List.forall_mem_cons.mp hkeyed
    obtain ⟨hnew, hdistinct⟩ := List.nodup_cons.mp hdistinct
    by_cases hsame : e.1 = uri
    · -- the uri is nowhere else, so no other document is taken out
      have hkept : (rest.map (·.2)).filter (fun d => Index.uriOf? d ≠ some uri) =
          rest.map (·.2) := by
        refine List.filter_eq_self.mpr fun d hd => ?_
        obtain ⟨e', he', rfl⟩ := List.mem_map.mp hd
        rw [decide_eq_true_eq, hrest e' he', ne_eq, Option.some.injEq, ← hsame]
        intro heq
        exact hnew (List.mem_map.mpr ⟨e', he', heq⟩)
      rw [List.map_cons, List.filter_cons_of_neg (by simp [he, hsame]), hkept,
        List.eraseP_cons_of_pos (by simp [hsame])]
    · rw [List.map_cons, List.filter_cons_of_pos (by simp [he, hsame]),
        ih hrest hdistinct, List.eraseP_cons_of_neg (by simp [hsame]), List.map_cons]

/-- The catalog gets smaller just when it has a document with the uri. -/
theorem length_erase_ne_iff (c : Catalog) (uri : String) :
    (c.erase uri).docs.length ≠ c.docs.length ↔ uri ∈ c.uris := by
  rw [docs, docs, List.length_map, List.length_map, erase, List.length_eraseP]
  split
  · next h =>
    obtain ⟨e, he, huri⟩ := List.any_eq_true.mp h
    have hpos : 0 < c.entries.length := List.length_pos_of_mem he
    exact iff_of_true (by omega) (List.mem_map.mpr ⟨e, he, eq_of_beq huri⟩)
  · next h =>
    refine iff_of_false (· rfl) fun hmem => h ?_
    obtain ⟨e, he, rfl⟩ := List.mem_map.mp hmem
    exact List.any_eq_true.mpr ⟨e, he, beq_self_eq_true e.1⟩

-- ---------------------------------------------------------------------------
-- Snapshots
-- ---------------------------------------------------------------------------

/-- A snapshot shows the documents of a catalog and no others, each at its place. It answers as
the segment that is built of them, fetches what is stored of the document at a place, and has no
two documents with one first uri. -/
structure ShownBy (c : Catalog) (index : Index) (snapshot : SnapshotHandle) : Prop where
  segment : ∃ version s, Segment.build version c.docs = .ok s ∧ index.Answers snapshot s
  all : ∀ limit cache, index.execute snapshot .all limit .documentOrder cache =
    (.ok ⟨((List.range c.docs.length).take limit).map DocId.mk, c.docs.length⟩, cache)
  fetch : ∀ i doc selector, c.docs[i]? = some doc → index.fetch snapshot ⟨i⟩ selector =
    .ok ((Segment.storedOf doc).filterKeys selector.admits)
  absent : ∀ i selector, c.docs.length ≤ i → ∃ version,
    index.fetch snapshot ⟨i⟩ selector = .error (.noDocument ⟨i⟩ version)
  distinct : ∀ i j stored stored', index.fetch snapshot ⟨i⟩ .all = .ok stored →
    index.fetch snapshot ⟨j⟩ .all = .ok stored' →
      stored.first? Field.uri = stored'.first? Field.uri → i = j

theorem getElem?_docs {i : Nat} : c.docs[i]? = some doc ↔
    ∃ uri, c.entries[i]? = some (uri, doc) := by
  rw [docs, List.getElem?_map, Option.map_eq_some_iff]
  constructor
  · rintro ⟨e, he, rfl⟩
    exact ⟨e.1, he⟩
  · rintro ⟨uri, he⟩
    exact ⟨(uri, doc), he, rfl⟩

/-- What is stored first as the uri of a document is the uri under which it is entered. -/
theorem first?_storedOf {i : Nat} (h : c.entries[i]? = some (uri, doc)) :
    (Segment.storedOf doc).first? Field.uri = some (.text uri) := by
  have huri := c.keyed _ (List.mem_of_getElem? h)
  rw [Table.first?, Segment.head?_storedOf, Index.uriOf?_eq_some.mp huri]
  rfl

theorem eq_of_uri_eq {i j : Nat} {doc' : Document} (hi : c.entries[i]? = some (uri, doc))
    (hj : c.entries[j]? = some (uri, doc')) : i = j := by
  have hlt : i < c.uris.length := by
    rw [uris, List.length_map]
    exact (List.getElem?_eq_some_iff.mp hi).1
  apply (List.getElem?_inj hlt c.distinct).mp
  rw [uris, List.getElem?_map, List.getElem?_map, hi, hj]
  rfl

theorem scan_all (docs : List Document) :
    Segment.scan docs (NativeQuery.all.accepts ·) = List.range docs.length := by
  refine List.filter_eq_self.mpr fun i hi => ?_
  rw [List.getElem?_eq_getElem (List.mem_range.mp hi)]
  rfl

theorem shownBy_of_answers {index : Index} {snapshot : SnapshotHandle} {version : Nat} {s : Segment}
    (hbuild : Segment.build version c.docs = .ok s) (h : index.Answers snapshot s) :
    c.ShownBy index snapshot := by
  have hs := Segment.build_represents hbuild
  have hfetch : ∀ i doc selector, c.docs[i]? = some doc → index.fetch snapshot ⟨i⟩ selector =
      .ok ((Segment.storedOf doc).filterKeys selector.admits) := by
    intro i doc selector hdoc
    rw [h.fetch, Segment.fetch_eq hs hdoc]
  have habsent : ∀ i selector, c.docs.length ≤ i → ∃ version,
      index.fetch snapshot ⟨i⟩ selector = .error (.noDocument ⟨i⟩ version) := by
    intro i selector hi
    have hnone : s.docs[i]? = none := Array.getElem?_eq_none (hs.size_eq ▸ hi)
    exact ⟨s.version, by rw [h.fetch, Segment.fetch, hnone]⟩
  have hentry : ∀ i stored, index.fetch snapshot ⟨i⟩ .all = .ok stored →
      ∃ uri doc, c.entries[i]? = some (uri, doc) ∧
        stored.first? Field.uri = some (.text uri) := by
    intro i stored hstored
    cases hdoc : c.docs[i]? with
    | none =>
      obtain ⟨version, herror⟩ := habsent i .all (List.getElem?_eq_none_iff.mp hdoc)
      cases herror.symm.trans hstored
    | some doc =>
      rw [hfetch i doc .all hdoc] at hstored
      obtain rfl := Except.ok.inj hstored
      obtain ⟨uri, he⟩ := getElem?_docs.mp hdoc
      exact ⟨uri, doc, he, (Table.first?_filterKeys _ rfl).trans (first?_storedOf he)⟩
  refine ⟨⟨version, s, hbuild, h⟩, ?_, hfetch, habsent, ?_⟩
  · intro limit cache
    have hall : NativeQuery.all.Unshared := NativeQuery.unshared_of_filters_eq_nil rfl
    obtain ⟨htop, -⟩ := Segment.top_settled hs hall.ownCells (hall.fresh cache).settled
      (fun _ hf => hf) limit .documentOrder
    rw [h.execute, htop, scan_all, List.length_range]
    rfl
  · intro i j stored stored' hi hj hsame
    obtain ⟨uri, doc, he, hfirst⟩ := hentry i stored hi
    obtain ⟨uri', doc', he', hfirst'⟩ := hentry j stored' hj
    rw [hfirst, hfirst', Option.some.injEq, StoredValue.text.injEq] at hsame
    subst hsame
    exact eq_of_uri_eq he he'

end Catalog

-- ---------------------------------------------------------------------------
-- Holdings
-- ---------------------------------------------------------------------------

/-- The documents that are staged, and those that were published last. -/
structure Holdings where
  staged : Catalog
  published : Catalog

namespace Holdings

variable {h : Holdings}

def empty : Holdings := ⟨.empty, .empty⟩

/-- The holdings after an operation. A document is entered if it is accepted. A commit of more
documents than there are ordinals fails and publishes nothing. -/
def after (h : Holdings) : Index.Operation → Holdings
  | .add doc =>
    match huri : Index.uriOf? doc with
    | some uri =>
      if Index.fault? doc = none then { h with staged := h.staged.put uri doc huri } else h
    | none => h
  | .delete uri => { h with staged := h.staged.erase uri }
  | .commit =>
    if h.staged.docs.length ≤ Word.size32 then { h with published := h.staged } else h
  | .acquire | .release _ => h

def run (h : Holdings) (operations : List Index.Operation) : Holdings := operations.foldl after h

theorem after_add_of_accepted {doc : Document} {uri : String} (hfault : Index.fault? doc = none)
    (huri : Index.uriOf? doc = some uri) :
    h.after (.add doc) = { h with staged := h.staged.put uri doc huri } := by
  simp only [after]
  split
  · next other hother =>
    obtain rfl := Option.some.inj (huri.symm.trans hother)
    rw [if_pos hfault]
  · next hnone => cases huri.symm.trans hnone

theorem after_add_of_refused {doc : Document} (hfault : Index.fault? doc ≠ none) :
    h.after (.add doc) = h := by
  simp only [after]
  split
  · rw [if_neg hfault]
  · rfl

theorem after_commit_staged : (h.after .commit).staged = h.staged := by
  rw [after]
  split <;> rfl

/-- An index stages what is staged, and has published what was published last. -/
structure KeptBy (h : Holdings) (index : Index) : Prop where
  staged : index.staged = h.staged.docs
  published : ∃ version, Segment.build version h.published.docs = .ok index.current

theorem empty_keptBy : empty.KeptBy Index.empty := ⟨rfl, 0, rfl⟩

theorem KeptBy.add {index index' : Index} {doc : Document} (hkept : h.KeptBy index)
    (hadd : index.add doc = .ok index') :
    ∃ uri, ∃ huri : Index.uriOf? doc = some uri,
      index'.staged = (h.staged.put uri doc huri).docs := by
  obtain ⟨hfault, rfl⟩ := Index.add_ok_iff.mp hadd
  obtain ⟨uri, huri⟩ := Option.isSome_iff_exists.mp (Index.fault?_eq_none_iff.mp hfault).1
  refine ⟨uri, huri, ?_⟩
  rw [← h.staged.stage_docs huri, hkept.staged]

theorem KeptBy.delete {index : Index} (hkept : h.KeptBy index) (uri : String) :
    ((index.delete uri).1 = true ↔ uri ∈ h.staged.uris) ∧
      (index.delete uri).2.staged = (h.staged.erase uri).docs := by
  have hstaged : (index.delete uri).2.staged = (h.staged.erase uri).docs := by
    rw [← h.staged.filter_docs, ← hkept.staged]
    rfl
  refine ⟨?_, hstaged⟩
  rw [← h.staged.length_erase_ne_iff, ← hstaged, ← hkept.staged]
  exact decide_eq_true_iff

/-- One operation keeps an index and its holdings together. -/
theorem KeptBy.after {index : Index} (hkept : h.KeptBy index) (hreachable : index.Reachable)
    (operation : Index.Operation) : (h.after operation).KeptBy (index.after operation) := by
  cases operation with
  | add doc =>
    rw [Index.after]
    cases hadd : index.add doc with
    | ok index' =>
      obtain ⟨uri, huri, hstaged⟩ := hkept.add hadd
      obtain ⟨hfault, rfl⟩ := Index.add_ok_iff.mp hadd
      rw [after_add_of_accepted hfault huri]
      exact ⟨hstaged, hkept.published⟩
    | error e =>
      have hfault : Index.fault? doc ≠ none := fun hnone => by
        cases (Index.add_ok_iff.mpr ⟨hnone, rfl⟩).symm.trans hadd
      rw [after_add_of_refused hfault]
      exact hkept
  | delete uri => exact ⟨(hkept.delete uri).2, hkept.published⟩
  | commit =>
    have hbuild := Segment.exists_build_iff (index.commits + 1) hreachable.indexable
    rw [hkept.staged] at hbuild
    refine ⟨?_, ?_⟩
    · rw [Index.after, index.commit_staged, hkept.staged, after_commit_staged]
    · rw [Holdings.after, Index.after]
      split
      · next hfew =>
        obtain ⟨s, hs⟩ := hbuild.mpr hfew
        refine ⟨index.commits + 1, ?_⟩
        rw [Index.commit_current_of_ok (hkept.staged ▸ hs), hs]
      · next hmany =>
        cases hs : Segment.build (index.commits + 1) index.staged with
        | ok s => exact absurd (hbuild.mp ⟨s, hkept.staged ▸ hs⟩) hmany
        | error e =>
          rw [Index.commit_current_of_error hs]
          exact hkept.published
  | acquire => exact ⟨hkept.staged, hkept.published⟩
  | release snapshot => exact ⟨hkept.staged, hkept.published⟩

/-- A run of an index keeps to the same run of its holdings. -/
theorem KeptBy.run {index : Index} (hkept : h.KeptBy index) (hreachable : index.Reachable)
    (operations : List Index.Operation) : (h.run operations).KeptBy (index.run operations) := by
  induction operations generalizing h index with
  | nil => exact hkept
  | cons operation rest ih =>
    exact ih (hkept.after hreachable operation) (hreachable.trans (index.evolves_after operation))

end Holdings

namespace Index

/-- An index keeps its documents as an ordered map. After any run from the empty index it stages
the catalog of the same run of its holdings. To add a document is to put it under its first uri,
and a deletion tells whether the uri was there. A snapshot shows the catalog that was published
last when it was acquired, until it is released, whatever happens to the index. -/
theorem run_keeps_holdings {operations later : List Operation} {index opened : Index}
    {held : Holdings} {snapshot : SnapshotHandle} (hrun : empty.run operations = index)
    (hheld : Holdings.empty.run operations = held)
    (hacquire : index.acquire = (snapshot, opened)) :
    index.staged = held.staged.docs ∧
    (∀ doc index', index.add doc = .ok index' → ∃ uri, ∃ huri : uriOf? doc = some uri,
      index'.staged = (held.staged.put uri doc huri).docs) ∧
    (∀ uri, ((index.delete uri).1 = true ↔ uri ∈ held.staged.uris) ∧
      (index.delete uri).2.staged = (held.staged.erase uri).docs) ∧
    (.release snapshot ∉ later → held.published.ShownBy (opened.run later) snapshot) := by
  subst hrun hheld
  have hkept := Holdings.empty_keptBy.run .refl operations
  obtain ⟨version, hbuild⟩ := hkept.published
  obtain ⟨hid, hpinned⟩ := acquire_pins hacquire
  refine ⟨hkept.staged, fun _ _ => hkept.add, hkept.delete, fun hopen => ?_⟩
  apply Catalog.shownBy_of_answers hbuild
  apply answers_of_lookup
  rw [lookup_run (Nat.le_of_eq hid), if_neg hopen, hpinned]

/-- Of two documents one is replaced in its place, by one that has the other's uri as well; the
other is deleted, added again and so comes last. -/
def replaceFirst : List Operation :=
  let a := Document.empty.addValue Field.uri (.text "/a")
  let b := Document.empty.addValue Field.uri (.text "/b")
  [.add b, .add a, .add (b.addValue Field.uri (.text "/a")), .commit, .delete "/a", .add a,
    .commit]

/-- A snapshot shows the two documents though their deletion has been published. -/
theorem run_keeps_holdings_replaced : ∃ held opened,
    Holdings.empty.run replaceFirst = held ∧
      (empty.run replaceFirst).acquire = (⟨1⟩, opened) ∧
      held.published.uris = ["/b", "/a"] ∧
      (opened.run [.delete "/b", .delete "/a", .commit]).docCount = 0 ∧
      held.published.ShownBy (opened.run [.delete "/b", .delete "/a", .commit]) ⟨1⟩ := by
  have hacquire : (empty.run replaceFirst).acquire = (⟨1⟩, (empty.run replaceFirst).acquire.2) :=
    rfl
  obtain ⟨-, -, -, hshown⟩ :=
    @run_keeps_holdings replaceFirst [.delete "/b", .delete "/a", .commit] _ _ _ _ rfl rfl hacquire
  exact ⟨_, _, rfl, hacquire, by decide, by decide, hshown (by decide)⟩

end Index

end GuardedSearch
