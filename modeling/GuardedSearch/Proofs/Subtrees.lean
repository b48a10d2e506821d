import GuardedSearch.Proofs.Snapshots
import GuardedSearch.Proofs.TranslatedQueries

/-!
# Resources in their own subtrees

A resource is added, deleted and reported by its first uri. The subtree of a uri is looked up by
any uri of any document, after the slashes at the end have been taken away. `own_subtree_iff` says
which resources are listed in the subtrees of their own uris: all whose uri has no slash at its
end and belongs to no other document, and of the others those that carry the number of the
document that is found.
-/

namespace GuardedSearch

/-- The first document with the uri has a number, and this one has it as an id or an ancestor. -/
def Document.BelowUri (doc : Document) (docs : List Document) (uri : String) : Prop :=
  ∃ n, (firstWithUri docs uri).bind Document.number? = some n ∧
    (.int32 n ∈ doc.valuesOf Field.id ∨ .int32 n ∈ doc.valuesOf Field.ancestorIds)

namespace Index

variable {docs : List Document} {doc : Document} {index : Index} {snapshot : SnapshotHandle}
  {s : Segment}

-- ---------------------------------------------------------------------------
-- Accepted documents
-- ---------------------------------------------------------------------------

theorem hasIntegerIds_of_accepted (h : fault? doc = none) : doc.HasIntegerIds := by
  intro name hname v hv
  have hresource := (fault?_eq_none_iff.mp h).2.1 name hname v hv
  cases v with
  | int32 n => rfl
  | _ => cases hresource

/-- An accepted document with an id has a number. -/
theorem exists_number? (h : fault? doc = none) (hid : doc.field? Field.id ≠ none) :
    ∃ n, doc.number? = some n ∧ .int32 n ∈ doc.valuesOf Field.id := by
  cases hfield : doc.field? Field.id with
  | none => exact absurd hfield hid
  | some v =>
    have hv : v ∈ doc.valuesOf Field.id := List.mem_of_head? hfield
    have htype := hasIntegerIds_of_accepted h Field.id (by simp) v hv
    cases v with
    | int32 n => exact ⟨n, by simp [Document.number?, hfield], hv⟩
    | _ => cases htype

theorem mem_termsIn_uri {uri : String} (h : uriOf? doc = some uri) :
    uri ∈ doc.termsIn Field.uri := by
  rw [uriOf?] at h
  split at h
  · next text hfield =>
    cases h
    exact List.mem_filterMap.mpr ⟨.text uri, List.mem_of_head? hfield, rfl⟩
  · cases h

/-- A document that no other shares its uri with is the one that the uri leads to. -/
theorem firstWithUri_eq_self {i : Nat} {uri : String} (hdoc : docs[i]? = some doc)
    (huri : uri ∈ doc.termsIn Field.uri)
    (halone : ∀ j other, docs[j]? = some other → uri ∈ other.termsIn Field.uri → j = i) :
    firstWithUri docs uri = some doc := by
  cases hfirst : firstWithUri docs uri with
  | none =>
    have hnot := List.find?_eq_none.mp hfirst doc (List.mem_of_getElem? hdoc)
    simp [huri] at hnot
  | some first =>
    have hterm : uri ∈ first.termsIn Field.uri := by
      simpa using List.find?_some hfirst
    obtain ⟨j, hj⟩ := List.getElem?_of_mem (List.mem_of_find?_eq_some hfirst)
    obtain rfl := halone j first hj hterm
    exact hj.symm.trans hdoc

-- ---------------------------------------------------------------------------
-- Executions
-- ---------------------------------------------------------------------------

/-- Under a limit of at least the count of documents an execution lists all that satisfy the
query. -/
theorem execute_lists {native : NativeQuery} (hshown : index.segment? snapshot = .ok s)
    (hs : s.Represents docs) (hnative : native.Unshared) (limit : Nat) (sorting : Sorting)
    (cache : FilterCache) :
    ∃ top cache', index.execute snapshot native limit sorting cache = (.ok top, cache') ∧
      (docs.length ≤ limit → ∀ i, ⟨i⟩ ∈ top.docs ↔
        ∃ doc, docs[i]? = some doc ∧ native.accepts doc = true) := by
  obtain ⟨htop, -⟩ := Segment.top_settled hs hnative.ownCells (hnative.fresh cache).settled
    (fun _ hf => hf) limit sorting
  refine ⟨_, _, execute_eq hshown native limit sorting cache, fun hlimit i => ?_⟩
  have hperm := s.inOrder_perm sorting (Segment.scan docs native.accepts)
  have hall := hperm.length_eq.le.trans ((Segment.length_scan_le docs native.accepts).trans hlimit)
  rw [htop, List.take_of_length_le hall, ← Segment.mem_scan, ← hperm.mem_iff]
  simp

/-- A resource is listed in the subtree of its own uri just when it carries the number that the
uri leads to without the slashes at its end, and in the inverted subtree just when it does not.
It carries this number if it has an id, there are no such slashes and no other document has the
uri. -/
theorem own_subtree_iff {operations later : List Operation} {opened : Index}
    (hrun : empty.run operations = index) (hacquire : index.acquire = (snapshot, opened))
    (hopen : .release snapshot ∉ later) (hdocs : empty.published [] operations = docs) {i : Nat}
    {uri : String} (hdoc : docs[i]? = some doc) (huri : uriOf? doc = some uri)
    (hid : doc.field? Field.id ≠ none) (schema : Schema) (cells : FilterCache) :
    (∀ inverted, ∃ native,
      (Query.subtree uri inverted).translate schema engine snapshot (cells, opened.run later) =
          (.ok native, cells, opened.run later) ∧
        ∀ limit sorting cache, ∃ top cache',
          (opened.run later).execute snapshot native limit sorting cache = (.ok top, cache') ∧
            (docs.length ≤ limit →
              (⟨i⟩ ∈ top.docs ↔ Query.Inverted inverted (doc.BelowUri docs (normalUri uri))))) ∧
      (normalUri uri = uri →
        (∀ j other, docs[j]? = some other → uri ∈ other.termsIn Field.uri → j = i) →
          doc.BelowUri docs (normalUri uri)) := by
  subst hrun hdocs
  obtain ⟨s, hshown, hs, haccepted⟩ := acquire_shows_published hacquire hopen
  have hids := fun doc hdoc => hasIntegerIds_of_accepted (haccepted doc hdoc)
  have hmem := List.mem_of_getElem? hdoc
  refine ⟨fun inverted => ?_, fun hnormal halone => ?_⟩
  · have htranslate := @Query.nativeSubtree_run _ _ _ _ cells hshown hs hids uri inverted
    obtain ⟨-, hunshared⟩ := Query.nativeSubtree_unshared htranslate
    refine ⟨_, htranslate, fun limit sorting cache => ?_⟩
    obtain ⟨top, cache', htop, hlists⟩ := execute_lists hshown hs hunshared limit sorting cache
    refine ⟨top, cache', htop, fun hlimit => ?_⟩
    rw [hlists hlimit i]
    simp only [hdoc, Option.some.injEq, exists_eq_left']
    exact Query.accepts_subtreeBelow_iff (hids doc hmem)
  · obtain ⟨n, hnumber, hn⟩ := exists_number? (haccepted doc hmem) hid
    refine ⟨n, ?_, .inl hn⟩
    rw [hnormal, firstWithUri_eq_self hdoc (mem_termsIn_uri huri) halone]
    exact hnumber

/-- A resource and one in it, and a folder whose uri ends in a slash. -/
def nested : List Operation :=
  [.add ((Document.empty.addValue Field.uri (.text "/docs")).addValue Field.id (.int32 7)),
    .add (((Document.empty.addValue Field.uri (.text "/docs/a")).addValue Field.id
      (.int32 8)).addValue Field.ancestorIds (.int32 7)),
    .add ((Document.empty.addValue Field.uri (.text "/b/")).addValue Field.id (.int32 9)), .commit]

/-- A resource below another is in its own subtree, though its deletion has been published. -/
theorem own_subtree_iff_nested : ∃ opened native top cache',
    (empty.run nested).acquire = (⟨1⟩, opened) ∧
      (Query.subtree "/docs/a" false).translate Schema.initial engine ⟨1⟩
        (.empty, opened.run [.delete "/docs/a", .commit]) =
          (.ok native, .empty, opened.run [.delete "/docs/a", .commit]) ∧
      (opened.run [.delete "/docs/a", .commit]).execute ⟨1⟩ native 3 .documentOrder .empty =
        (.ok top, cache') ∧ ⟨1⟩ ∈ top.docs := by
  have hacquire : (empty.run nested).acquire = (⟨1⟩, (empty.run nested).acquire.2) := rfl
  obtain ⟨hlisted, hplain⟩ := @own_subtree_iff _ _ _ _ nested [.delete "/docs/a", .commit] _ rfl
    hacquire (by decide) rfl 1 "/docs/a" rfl rfl (by decide) Schema.initial .empty
  obtain ⟨native, htranslate, hexecute⟩ := hlisted false
  obtain ⟨top, cache', htop, hlists⟩ := hexecute 3 .documentOrder .empty
  refine ⟨_, native, top, cache', hacquire, htranslate, htop, (hlists (by decide)).mpr ?_⟩
  refine hplain (by decide) fun j other hother hterm => ?_
  rcases j with _ | _ | _ | j
  · cases hother
    exact absurd hterm (by decide)
  · rfl
  · cases hother
    exact absurd hterm (by decide)
  · cases hother

/-- The folder is not in its own subtree, since no document has its uri without the slash. -/
theorem exists_outside_own_subtree : ∃ operations opened i doc uri native top cache',
    (empty.run operations).acquire = (⟨1⟩, opened) ∧
      (empty.published [] operations)[i]? = some doc ∧ uriOf? doc = some uri ∧
      doc.field? Field.id ≠ none ∧
      (Query.subtree uri false).translate Schema.initial engine ⟨1⟩ (.empty, opened) =
        (.ok native, .empty, opened) ∧
      opened.execute ⟨1⟩ native 3 .documentOrder .empty = (.ok top, cache') ∧
      top.totalHits = 0 ∧ ⟨i⟩ ∉ top.docs :=
  ⟨nested, _, 2, _, "/b/", _, _, _, rfl, rfl, rfl, by decide, rfl, rfl, rfl, by decide⟩

end Index

end GuardedSearch
