import GuardedSearch.Segment
import GuardedSearch.Proofs.GlobMatching
import GuardedSearch.Proofs.TextOrder

/-!
# Scans of a dictionary

The scans of a dictionary begin late and end early. Each finds the same entries as a look at
every entry would: `entriesUnder_eq_filter`, `entriesBetween_eq_filter` and
`entriesMatching_eq_filter`.
-/

namespace GuardedSearch

-- ---------------------------------------------------------------------------
-- Sorted lists
-- ---------------------------------------------------------------------------

/-- Where `p` fails at one element and at all later ones, the front that satisfies it is all
that does. -/
theorem takeWhile_eq_filter {p : α → Bool} {l : List α}
    (h : l.Pairwise fun x y => p y = true → p x = true) : l.takeWhile p = l.filter p := by
  induction l with
  | nil => rfl
  | cons a l ih =>
    obtain ⟨ha, hl⟩ := List.pairwise_cons.mp h
    by_cases hp : p a = true
    · rw [List.takeWhile_cons_of_pos hp, List.filter_cons_of_pos hp, ih hl]
    · rw [List.takeWhile_cons_of_neg hp, List.filter_cons_of_neg hp]
      exact (List.filter_eq_nil_iff.mpr fun b hb hpb => hp (ha b hb hpb)).symm

theorem dropWhile_eq_filter {p : α → Bool} {l : List α}
    (h : l.Pairwise fun x y => p y = true → p x = true) :
    l.dropWhile p = l.filter fun x => !p x := by
  induction l with
  | nil => rfl
  | cons a l ih =>
    obtain ⟨ha, hl⟩ := List.pairwise_cons.mp h
    by_cases hp : p a = true
    · rw [List.dropWhile_cons_of_pos hp, List.filter_cons_of_neg (by simp [hp]), ih hl]
    · rw [List.dropWhile_cons_of_neg hp]
      refine (List.filter_eq_self.mpr fun b hb => ?_).symm
      rcases List.mem_cons.mp hb with rfl | hb
      · simpa using hp
      · simpa using fun hpb => hp (ha b hb hpb)

namespace Table

theorem lookup_of_mem {es : List (String × α)} (h : es.Pairwise fun a b => a.1 < b.1)
    {e : String × α} (he : e ∈ es) : es.lookup e.1 = some e.2 := by
  induction es with
  | nil => cases he
  | cons d rest ih =>
    obtain ⟨hd, hrest⟩ := List.pairwise_cons.mp h
    rw [List.lookup_cons]
    rcases List.mem_cons.mp he with rfl | he
    · simp
    · have hne : (e.1 == d.1) = false := by
        refine beq_eq_false_iff_ne.mpr fun heq => ?_
        exact String.lt_irrefl _ (heq ▸ hd e he)
      simp only [hne]
      exact ih hrest he

theorem mem_of_lookup {κ : Type} [BEq κ] [LawfulBEq κ] {es : List (κ × α)} {key : κ} {value : α}
    (h : es.lookup key = some value) : (key, value) ∈ es := by
  induction es with
  | nil => cases h
  | cons d rest ih =>
    rw [List.lookup_cons] at h
    split at h
    · rename_i heq
      obtain rfl := eq_of_beq heq
      obtain rfl := Option.some.inj h
      exact List.mem_cons_self
    · exact List.mem_cons_of_mem _ (ih h)

/-- The entries of a table are what stands under its keys. -/
theorem mem_entries_iff {t : Table α} {e : String × α} :
    e ∈ t.entries ↔ t.get? e.1 = some e.2 :=
  ⟨lookup_of_mem t.sorted, mem_of_lookup⟩

/-- A key after all others comes at the end. -/
theorem updateEntries_of_lt {key : String} {f : Option α → α} {es : List (String × α)}
    (h : ∀ e ∈ es, e.1 < key) : updateEntries key f es = es ++ [(key, f none)] := by
  induction es with
  | nil => rfl
  | cons e es ih =>
    obtain ⟨he, hes⟩ := List.forall_mem_cons.mp h
    have hne : ¬ key = e.1 := fun heq => String.lt_irrefl _ (heq ▸ he)
    have hnot : ¬ key < e.1 := String.lt_asymm he
    rw [updateEntries, if_neg hne, if_neg hnot, ih hes, List.cons_append]

theorem eq_of_entries {t u : Table α} (h : t.entries = u.entries) : t = u := by
  cases t
  cases u
  cases h
  rfl

/-- Entries that go on in the order of a table are put at its end. -/
theorem entries_foldl_insert {es : List (String × α)} {t : Table α}
    (h : (t.entries ++ es).Pairwise fun a b => a.1 < b.1) :
    (es.foldl (fun t e => t.insert e.1 e.2) t).entries = t.entries ++ es := by
  induction es generalizing t with
  | nil => rw [List.append_nil, List.foldl_nil]
  | cons e es ih =>
    have hlast : (t.insert e.1 e.2).entries = t.entries ++ [e] :=
      updateEntries_of_lt fun d hd => (List.pairwise_append.mp h).2.2 d hd e List.mem_cons_self
    have hall : (t.insert e.1 e.2).entries ++ es = t.entries ++ e :: es := by
      rw [hlast, List.append_assoc]
      rfl
    rw [List.foldl_cons, ih (by rwa [hall]), hall]

theorem entries_ofList {es : List (String × α)} (h : es.Pairwise fun a b => a.1 < b.1) :
    (ofList es).entries = es :=
  entries_foldl_insert (t := empty) h

/-- A table of ascending entries finds each of them under its key. -/
theorem get?_ofList {es : List (String × α)} (h : es.Pairwise fun a b => a.1 < b.1) {key : String}
    {value : α} : (ofList es).get? key = some value ↔ (key, value) ∈ es := by
  rw [← entries_ofList h, mem_entries_iff, entries_ofList h]

/-- The table of a table's entries is the table. -/
theorem ofList_entries (t : Table α) : ofList t.entries = t :=
  eq_of_entries (entries_ofList t.sorted)

end Table

-- ---------------------------------------------------------------------------
-- Scans
-- ---------------------------------------------------------------------------

theorem Bound.admitsFromBelow_mono {lower : Bound} {s t : String} (hst : s < t)
    (h : lower.admitsFromBelow s = true) : lower.admitsFromBelow t = true := by
  cases lower with
  | inclusive bound =>
    simp only [admitsFromBelow, decide_eq_true_eq] at h ⊢
    exact fun hlt => h (String.lt_trans hst hlt)
  | exclusive bound =>
    simp only [admitsFromBelow, decide_eq_true_eq] at h ⊢
    exact String.lt_trans h hst
  | unbounded => rfl

theorem Bound.admitsFromAbove_mono {upper : Bound} {s t : String} (hst : s < t)
    (h : upper.admitsFromAbove t = true) : upper.admitsFromAbove s = true := by
  cases upper with
  | inclusive bound =>
    simp only [admitsFromAbove, decide_eq_true_eq] at h ⊢
    exact fun hlt => h (String.lt_trans hlt hst)
  | exclusive bound =>
    simp only [admitsFromAbove, decide_eq_true_eq] at h ⊢
    exact String.lt_trans hst h
  | unbounded => rfl

namespace FieldIndex

variable (index : FieldIndex)

theorem entriesFrom_eq_filter (start : String) :
    index.entriesFrom start = index.terms.entries.filter fun e => decide (¬ e.1 < start) := by
  rw [entriesFrom, dropWhile_eq_filter]
  · exact List.filter_congr fun e _ => (decide_not ..).symm
  · refine index.terms.sorted.imp fun hlt => ?_
    simp only [decide_eq_true_eq]
    exact String.lt_trans hlt

theorem entriesUnder_eq_filter (stem : String) :
    index.entriesUnder stem =
      index.terms.entries.filter fun e => stem.toList.isPrefixOf e.1.toList := by
  rw [entriesUnder, entriesFrom_eq_filter, takeWhile_eq_filter, List.filter_filter]
  · refine List.filter_congr fun e _ => ?_
    by_cases hpre : stem.toList <+: e.1.toList
    · have hle : ¬ e.1 < stem := hpre.le
      simp [hle]
    · simp [hpre]
  · refine List.Pairwise.filter _ index.terms.sorted |>.imp_of_mem fun ha _ hlt hpre => ?_
    have hfrom := (List.mem_filter.mp ha).2
    rw [decide_eq_true_eq] at hfrom
    rw [List.isPrefixOf_iff_prefix] at hpre ⊢
    exact Text.prefix_of_between hfrom hlt hpre

theorem entriesBetween_eq_filter (lower upper : Bound) :
    index.entriesBetween lower upper = index.terms.entries.filter fun e =>
      lower.admitsFromBelow e.1 && upper.admitsFromAbove e.1 := by
  rw [entriesBetween, dropWhile_eq_filter, takeWhile_eq_filter, List.filter_filter]
  · refine List.filter_congr fun e _ => ?_
    rw [Bool.not_not, Bool.and_comm]
  · exact List.Pairwise.filter _ index.terms.sorted |>.imp Bound.admitsFromAbove_mono
  · refine index.terms.sorted.imp fun hlt => ?_
    simp only [Bool.not_eq_true', Bool.eq_false_iff, ne_eq]
    exact fun hy hx => hy (Bound.admitsFromBelow_mono hlt hx)

theorem entriesMatching_eq_filter (pattern : String) :
    index.entriesMatching pattern = index.terms.entries.filter fun e =>
      decide (Glob.Matches pattern.toList e.1.toList) := by
  rw [entriesMatching, entriesUnder_eq_filter, List.filter_filter]
  refine List.filter_congr fun e _ => ?_
  by_cases hm : Glob.Matches pattern.toList e.1.toList
  · have hpre := hm.literalStart_prefix
    simp [Glob.isMatch_iff.mpr hm, hm, hpre]
  · have hno : Glob.isMatch pattern e.1 = false :=
      Bool.eq_false_iff.mpr fun h => hm (Glob.isMatch_iff.mp h)
    simp [hno, hm]

end FieldIndex

end GuardedSearch
