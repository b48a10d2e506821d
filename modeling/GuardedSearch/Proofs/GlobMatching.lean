import GuardedSearch.Glob

/-!
# What a pattern matches

`Matches` says character by character which texts a pattern matches. `isMatch_iff` says that
the matcher, which marks the suffixes of a text from the end of the pattern, decides it.
-/

namespace GuardedSearch.Glob

/-- A pattern and a text that it matches as a whole. -/
inductive Matches : List Char → List Char → Prop
  | nil : Matches [] []
  | run {pattern text : List Char} (skipped : List Char) :
      Matches pattern text → Matches (anyRun :: pattern) (skipped ++ text)
  | one {pattern text : List Char} (c : Char) :
      Matches pattern text → Matches (anyOne :: pattern) (c :: text)
  | same {pattern text : List Char} (c : Char) (hrun : c ≠ anyRun) (hone : c ≠ anyOne) :
      Matches pattern text → Matches (c :: pattern) (c :: text)

/-- Each mark tells whether `P` holds of the suffix it stands for. -/
inductive Marks (P : List Char → Prop) : List Char → List Bool → Prop
  | nil {mark : Bool} : (mark = true ↔ P []) → Marks P [] [mark]
  | cons {c : Char} {text : List Char} {mark : Bool} {marks : List Bool} :
      (mark = true ↔ P (c :: text)) → Marks P text marks → Marks P (c :: text) (mark :: marks)

theorem Marks.head {P : List Char → Prop} {text : List Char} {marks : List Bool}
    (h : Marks P text marks) : marks.head?.getD false = true ↔ P text := by
  cases h with
  | nil hmark => exact hmark
  | cons hmark _ => exact hmark

theorem Marks.congr {P Q : List Char → Prop} (hPQ : ∀ text, P text ↔ Q text) {text : List Char}
    {marks : List Bool} (h : Marks P text marks) : Marks Q text marks := by
  induction h with
  | nil hmark => exact .nil (hmark.trans (hPQ _))
  | cons hmark _ ih => exact .cons (hmark.trans (hPQ _)) ih

theorem Marks.anySuffix {P : List Char → Prop} {text : List Char} {marks : List Bool}
    (h : Marks P text marks) :
    Marks (fun s => ∃ skipped rest, s = skipped ++ rest ∧ P rest) text (anySuffix marks) := by
  induction h with
  | nil hmark =>
    refine .nil ?_
    simp only [Glob.anySuffix, List.head?_nil, Option.getD_none, Bool.or_false, hmark]
    constructor
    · exact fun h => ⟨[], [], rfl, h⟩
    · rintro ⟨skipped, rest, heq, h⟩
      obtain ⟨-, rfl⟩ := List.nil_eq_append_iff.mp heq
      exact h
  | @cons c text mark marks hmark _ ih =>
    refine .cons ?_ ih
    rw [Bool.or_eq_true, ih.head, hmark]
    constructor
    · rintro (h | ⟨skipped, rest, rfl, h⟩)
      · exact ⟨[], c :: text, rfl, h⟩
      · exact ⟨c :: skipped, rest, rfl, h⟩
    · rintro ⟨skipped, rest, heq, h⟩
      cases skipped with
      | nil => exact .inl (heq ▸ h)
      | cons d skipped =>
        obtain ⟨-, rfl⟩ := List.cons.inj heq
        exact .inr ⟨skipped, rest, rfl, h⟩

theorem Marks.firstThen {P : List Char → Prop} (p : Char → Bool) {text : List Char}
    {marks : List Bool} (h : Marks P text marks) :
    Marks (fun s => ∃ c rest, s = c :: rest ∧ p c = true ∧ P rest) text
      (firstThen p text marks) := by
  induction h with
  | nil _ => exact .nil (by simp)
  | @cons c text mark marks _ htext ih =>
    refine .cons ?_ ih
    rw [Bool.and_eq_true, htext.head]
    constructor
    · rintro ⟨hc, h⟩
      exact ⟨c, text, rfl, hc, h⟩
    · rintro ⟨d, rest, heq, hd, h⟩
      obtain ⟨rfl, rfl⟩ := List.cons.inj heq
      exact ⟨hd, h⟩

theorem marks_of_nil (text : List Char) :
    Marks (Matches []) text (text.map (fun _ => false) ++ [true]) := by
  induction text with
  | nil => exact .nil ⟨fun _ => .nil, fun _ => rfl⟩
  | cons c text ih => exact .cons ⟨fun h => (nomatch h), fun h => (nomatch h)⟩ ih

theorem matches_run_iff {pattern text : List Char} : Matches (anyRun :: pattern) text ↔
    ∃ skipped rest, text = skipped ++ rest ∧ Matches pattern rest := by
  constructor
  · intro h
    cases h with
    | run skipped h => exact ⟨skipped, _, rfl, h⟩
    | same _ hrun => exact absurd rfl hrun
  · rintro ⟨skipped, rest, rfl, h⟩
    exact .run skipped h

theorem matches_one_iff {pattern text : List Char} : Matches (anyOne :: pattern) text ↔
    ∃ c rest, text = c :: rest ∧ true = true ∧ Matches pattern rest := by
  constructor
  · intro h
    cases h with
    | one c h => exact ⟨c, _, rfl, rfl, h⟩
    | same _ _ hone => exact absurd rfl hone
  · rintro ⟨c, rest, rfl, -, h⟩
    exact .one c h

theorem matches_same_iff {c : Char} {pattern text : List Char} (hrun : c ≠ anyRun)
    (hone : c ≠ anyOne) : Matches (c :: pattern) text ↔
      ∃ d rest, text = d :: rest ∧ (d == c) = true ∧ Matches pattern rest := by
  constructor
  · intro h
    cases h with
    | run => exact absurd rfl hrun
    | one => exact absurd rfl hone
    | same _ _ _ h => exact ⟨c, _, rfl, beq_self_eq_true c, h⟩
  · rintro ⟨d, rest, rfl, hd, h⟩
    obtain rfl := eq_of_beq hd
    exact .same d hrun hone h

theorem marks_matchedSuffixes (pattern text : List Char) :
    Marks (Matches pattern) text (matchedSuffixes pattern text) := by
  induction pattern with
  | nil => exact marks_of_nil text
  | cons c pattern ih =>
    simp only [matchedSuffixes]
    by_cases hrun : c = anyRun
    · subst hrun
      rw [if_pos rfl]
      exact ih.anySuffix.congr fun _ => matches_run_iff.symm
    · rw [if_neg hrun]
      by_cases hone : c = anyOne
      · subst hone
        rw [if_pos rfl]
        exact (ih.firstThen _).congr fun _ => matches_one_iff.symm
      · rw [if_neg hone]
        exact (ih.firstThen _).congr fun _ => (matches_same_iff hrun hone).symm

/-- The matcher decides what a pattern matches. -/
theorem isMatch_iff {pattern text : String} :
    isMatch pattern text = true ↔ Matches pattern.toList text.toList :=
  (marks_matchedSuffixes pattern.toList text.toList).head

instance (pattern text : List Char) : Decidable (Matches pattern text) :=
  decidable_of_iff _ (marks_matchedSuffixes pattern text).head

/-- Every match begins with the literal start of its pattern. -/
theorem Matches.literalStart_prefix {pattern text : String}
    (h : Matches pattern.toList text.toList) :
    (literalStart pattern).toList <+: text.toList := by
  rw [literalStart, String.toList_ofList]
  generalize pattern.toList = p at h
  generalize text.toList = t at h
  induction h with
  | nil => exact List.nil_prefix
  | run => exact List.nil_prefix
  | one => exact List.nil_prefix
  | same c hrun hone _ ih =>
    rw [List.takeWhile_cons_of_pos (by simp [hrun, hone])]
    exact List.cons_prefix_cons.mpr ⟨rfl, ih⟩

end GuardedSearch.Glob
