import GuardedSearch.Proofs.GlobMatching

/-!
# Patterns written as regular expressions

A wildcard pattern is written as a regular expression that is anchored at both ends; characters
that have a meaning of their own there stand behind a backslash (`sourceOf`). `ofSource?` reads
such expressions, and `Finds` says in which texts they find a match. The expression of a pattern
is found in just the texts that the pattern matches (`finds_sourceOf_iff`).
-/

namespace GuardedSearch.Expression

-- ---------------------------------------------------------------------------
-- Matches
-- ---------------------------------------------------------------------------

inductive Atom where
  | start
  | finish
  | any
  | char (c : Char)
deriving DecidableEq, Repr

/-- An atom that stands once, or any number of times. -/
structure Piece where
  atom : Atom
  starred : Bool
deriving DecidableEq, Repr

/-- What an atom takes of a text, between what is before it and what is after it. Any character
may be a line break only if dots stand for all characters. -/
inductive Atom.Takes (dotAll : Bool) : Atom → List Char → List Char → List Char → Prop
  | start {after : List Char} : Takes dotAll .start [] [] after
  | finish {before : List Char} : Takes dotAll .finish before [] []
  | any {before after : List Char} {c : Char} (h : dotAll = true ∨ c ≠ '\n') :
      Takes dotAll .any before [c] after
  | char {before after : List Char} {c : Char} : Takes dotAll (.char c) before [c] after

/-- The pieces match from a place in a text, wherever the match ends. -/
inductive Reads (dotAll : Bool) : List Piece → List Char → List Char → Prop
  | nil {before after : List Char} : Reads dotAll [] before after
  | once {atom : Atom} {pieces : List Piece} {before taken after : List Char} :
      atom.Takes dotAll before taken after → Reads dotAll pieces (before ++ taken) after →
        Reads dotAll (⟨atom, false⟩ :: pieces) before (taken ++ after)
  | stop {atom : Atom} {pieces : List Piece} {before after : List Char} :
      Reads dotAll pieces before after → Reads dotAll (⟨atom, true⟩ :: pieces) before after
  | more {atom : Atom} {pieces : List Piece} {before taken after : List Char} :
      atom.Takes dotAll before taken after →
        Reads dotAll (⟨atom, true⟩ :: pieces) (before ++ taken) after →
          Reads dotAll (⟨atom, true⟩ :: pieces) before (taken ++ after)

end Expression

/-- A regular expression of the kind that patterns are written as. -/
structure Expression where
  dotAll : Bool
  pieces : List Expression.Piece
deriving DecidableEq, Repr

namespace Expression

/-- The expression matches somewhere in the text. -/
def Finds (e : Expression) (text : String) : Prop :=
  ∃ before after, text.toList = before ++ after ∧ Reads e.dotAll e.pieces before after

section Reads

variable {dotAll : Bool} {pieces : List Piece} {before rest : List Char}

theorem reads_char_iff {c : Char} : Reads dotAll (⟨.char c, false⟩ :: pieces) before rest ↔
    ∃ after, rest = c :: after ∧ Reads dotAll pieces (before ++ [c]) after := by
  constructor
  · intro h
    cases h with
    | once htakes h =>
      cases htakes
      exact ⟨_, rfl, h⟩
  · rintro ⟨after, rfl, h⟩
    exact .once .char h

theorem reads_any_iff : Reads true (⟨.any, false⟩ :: pieces) before rest ↔
    ∃ c after, rest = c :: after ∧ Reads true pieces (before ++ [c]) after := by
  constructor
  · intro h
    cases h with
    | once htakes h =>
      cases htakes
      exact ⟨_, _, rfl, h⟩
  · rintro ⟨c, after, rfl, h⟩
    exact .once (.any (.inl rfl)) h

theorem reads_anyRun_iff : Reads true (⟨.any, true⟩ :: pieces) before rest ↔
    ∃ skipped after, rest = skipped ++ after ∧ Reads true pieces (before ++ skipped) after := by
  constructor
  · intro h
    generalize hall : ⟨.any, true⟩ :: pieces = all at h
    induction h with
    | nil => cases hall
    | once => cases hall
    | stop h =>
      cases hall
      exact ⟨[], _, rfl, by simpa using h⟩
    | more htakes _ ih =>
      cases hall
      cases htakes
      obtain ⟨skipped, after, rfl, h⟩ := ih rfl
      exact ⟨_ :: skipped, after, rfl, by simpa using h⟩
  · rintro ⟨skipped, after, rfl, h⟩
    induction skipped generalizing before with
    | nil => exact .stop (by simpa using h)
    | cons c skipped ih =>
      have hrest : Reads true (⟨.any, true⟩ :: pieces) (before ++ [c]) (skipped ++ after) :=
        ih (by simpa using h)
      rw [List.cons_append]
      exact .more (.any (.inl rfl)) hrest

theorem reads_start_iff :
    Reads dotAll (⟨.start, false⟩ :: pieces) before rest ↔
      before = [] ∧ Reads dotAll pieces [] rest := by
  constructor
  · intro h
    cases h with
    | once htakes h =>
      cases htakes
      exact ⟨rfl, h⟩
  · rintro ⟨rfl, h⟩
    exact .once .start h

theorem reads_finish_iff : Reads dotAll [⟨.finish, false⟩] before rest ↔ rest = [] := by
  constructor
  · intro h
    cases h with
    | once htakes h =>
      cases htakes
      rfl
  · rintro rfl
    exact .once .finish .nil

end Reads

-- ---------------------------------------------------------------------------
-- Sources
-- ---------------------------------------------------------------------------

/-- The characters that stand for themselves only behind a backslash. -/
def metaCharacters : List Char :=
  ['\\', '.', '+', '*', '?', '(', ')', '|', '[', ']', '\x7b', '\x7d', '^', '$', '#', '&', '-', '~']

inductive Token where
  | operator (c : Char)
  | literal (c : Char)
deriving DecidableEq, Repr

/-- The tokens of a source; `escaped` tells whether it comes behind a backslash. -/
def tokens? : (escaped : Bool) → List Char → Option (List Token)
  | false, [] => some []
  | true, [] => none
  | true, c :: rest =>
    if c ∈ metaCharacters then do return .literal c :: (← tokens? false rest) else none
  | false, c :: rest =>
    if c = '\\' then tokens? true rest
    else if c ∈ metaCharacters then do return .operator c :: (← tokens? false rest)
    else do return .literal c :: (← tokens? false rest)

/-- The pieces that tokens stand for, and whether a star stands before them. Only a character or
a dot may have a star. -/
def pieces? : List Token → Option (Bool × List Piece)
  | [] => some (false, [])
  | token :: rest => do
    let (starred, pieces) ← pieces? rest
    match token, starred with
    | .literal c, _ => return (false, ⟨.char c, starred⟩ :: pieces)
    | .operator '.', _ => return (false, ⟨.any, starred⟩ :: pieces)
    | .operator '*', false => return (true, pieces)
    | .operator '^', false => return (false, ⟨.start, false⟩ :: pieces)
    | .operator '$', false => return (false, ⟨.finish, false⟩ :: pieces)
    | .operator _, _ => none

/-- The flag at the front of a source that makes dots stand for all characters. -/
def dotAllFlag : List Char := ['(', '?', 's', ')']

/-- The pieces of a source of characters, dots, stars and anchors. -/
def piecesOf? (source : List Char) : Option (Bool × List Piece) := do
  pieces? (← tokens? false source)

/-- Reads a source; the flag may stand in front. -/
def ofSource? (source : String) : Option Expression := do
  let dotAll := dotAllFlag.isPrefixOf source.toList
  match ← piecesOf? (if dotAll then source.toList.drop dotAllFlag.length else source.toList) with
  | (false, pieces) => return ⟨dotAll, pieces⟩
  | (true, _) => none

-- ---------------------------------------------------------------------------
-- Patterns
-- ---------------------------------------------------------------------------

/-- How a character of a pattern is written: `*` and `?` with dots, and others as themselves. -/
def sourceOfChar (c : Char) : List Char :=
  if c = Glob.anyRun then ['.', '*']
  else if c = Glob.anyOne then ['.']
  else if c ∈ metaCharacters then ['\\', c]
  else [c]

/-- A wildcard pattern as an expression that is anchored at both ends. -/
def sourceOf (pattern : String) : String :=
  .ofList (dotAllFlag ++ '^' :: (pattern.toList.flatMap sourceOfChar ++ ['$']))

def pieceOfChar (c : Char) : Piece :=
  if c = Glob.anyRun then ⟨.any, true⟩
  else if c = Glob.anyOne then ⟨.any, false⟩
  else ⟨.char c, false⟩

/-- The pieces of a pattern up to the anchor at its end. -/
def piecesOfPattern (pattern : List Char) : List Piece :=
  pattern.map pieceOfChar ++ [⟨.finish, false⟩]

theorem piecesOf?_eq_some_iff {source : List Char} {read : Bool × List Piece} :
    piecesOf? source = some read ↔ ∃ tokens, tokens? false source = some tokens ∧
      pieces? tokens = some read := by
  simp [piecesOf?, Option.bind_eq_some_iff]

theorem piecesOf?_sourceOfChar {c : Char} {rest : List Char} {pieces : List Piece}
    (h : piecesOf? rest = some (false, pieces)) :
    piecesOf? (sourceOfChar c ++ rest) = some (false, pieceOfChar c :: pieces) := by
  obtain ⟨tokens, htokens, hpieces⟩ := piecesOf?_eq_some_iff.mp h
  unfold sourceOfChar pieceOfChar
  split
  · simp [piecesOf?, tokens?, metaCharacters, htokens, pieces?, hpieces]
  · split
    · simp [piecesOf?, tokens?, metaCharacters, htokens, pieces?, hpieces]
    · split
      · next hmeta => simp [piecesOf?, tokens?, hmeta, htokens, pieces?, hpieces]
      · next hmeta =>
        have hescape : c ≠ '\\' := by
          rintro rfl
          simp [metaCharacters] at hmeta
        simp [piecesOf?, tokens?, hmeta, hescape, htokens, pieces?, hpieces]

theorem piecesOf?_pattern (pattern : List Char) :
    piecesOf? (pattern.flatMap sourceOfChar ++ ['$']) = some (false, piecesOfPattern pattern) := by
  induction pattern with
  | nil => rfl
  | cons c pattern ih =>
    rw [List.flatMap_cons, List.append_assoc]
    exact piecesOf?_sourceOfChar ih

/-- The source of a pattern is read as the pieces of its characters between the anchors. -/
theorem ofSource?_sourceOf (pattern : String) : ofSource? (sourceOf pattern) =
    some ⟨true, ⟨.start, false⟩ :: piecesOfPattern pattern.toList⟩ := by
  obtain ⟨tokens, htokens, hpieces⟩ :=
    piecesOf?_eq_some_iff.mp (piecesOf?_pattern pattern.toList)
  have hstart : piecesOf? ('^' :: (pattern.toList.flatMap sourceOfChar ++ ['$'])) =
      some (false, ⟨.start, false⟩ :: piecesOfPattern pattern.toList) := by
    simp [piecesOf?, tokens?, metaCharacters, htokens, pieces?, hpieces]
  simp [ofSource?, sourceOf, dotAllFlag, hstart]

/-- The pieces of a pattern match a text up to its end just when the pattern matches it. -/
theorem reads_piecesOfPattern_iff {pattern before rest : List Char} :
    Reads true (piecesOfPattern pattern) before rest ↔ Glob.Matches pattern rest := by
  induction pattern generalizing before rest with
  | nil =>
    rw [piecesOfPattern, List.map_nil, List.nil_append, reads_finish_iff]
    constructor
    · rintro rfl
      exact .nil
    · rintro ⟨⟩
      rfl
  | cons c pattern ih =>
    have hcons : piecesOfPattern (c :: pattern) = pieceOfChar c :: piecesOfPattern pattern := rfl
    rw [hcons, pieceOfChar]
    split
    · next hrun =>
      rw [hrun, reads_anyRun_iff, Glob.matches_run_iff]
      simp only [ih]
    · next hrun =>
      split
      · next hone =>
        rw [hone, reads_any_iff, Glob.matches_one_iff]
        simp only [ih, true_and]
      · next hone =>
        rw [reads_char_iff, Glob.matches_same_iff hrun hone]
        simp only [ih, beq_iff_eq]
        constructor
        · rintro ⟨after, rfl, h⟩
          exact ⟨c, after, rfl, rfl, h⟩
        · rintro ⟨d, after, rfl, rfl, h⟩
          exact ⟨after, rfl, h⟩

/-- The expression of a pattern is found in just the texts that the pattern matches. -/
theorem finds_sourceOf_iff {pattern text : String} {e : Expression}
    (h : ofSource? (sourceOf pattern) = some e) :
    e.Finds text ↔ Glob.Matches pattern.toList text.toList := by
  obtain rfl := Option.some.inj ((ofSource?_sourceOf pattern).symm.trans h)
  unfold Finds
  simp only [reads_start_iff, reads_piecesOfPattern_iff]
  constructor
  · rintro ⟨before, after, htext, rfl, h⟩
    rwa [htext]
  · exact fun h => ⟨[], text.toList, rfl, rfl, h⟩

-- ---------------------------------------------------------------------------
-- Searches
-- ---------------------------------------------------------------------------

/-- A search for sources in texts that finds what the expressions of this kind find; of other
sources nothing is said. -/
def Decides (isMatch : String → String → Bool) : Prop :=
  ∀ source e, ofSource? source = some e → ∀ text, isMatch source text = true ↔ e.Finds text

/-- What an atom takes at a place and what is left behind it. -/
def Atom.take? (dotAll : Bool) : Atom → List Char → List Char → Option (List Char × List Char)
  | .start, [], after => some ([], after)
  | .finish, _, [] => some ([], [])
  | .any, _, c :: after => if dotAll = true ∨ c ≠ '\n' then some ([c], after) else none
  | .char d, _, c :: after => if c = d then some ([c], after) else none
  | _, _, _ => none

theorem Atom.take?_eq_some_iff {dotAll : Bool} {atom : Atom} {before rest taken after : List Char} :
    atom.take? dotAll before rest = some (taken, after) ↔
      rest = taken ++ after ∧ atom.Takes dotAll before taken after := by
  constructor
  · intro h
    unfold take? at h
    split at h
    · cases h
      exact ⟨rfl, .start⟩
    · cases h
      exact ⟨rfl, .finish⟩
    · split at h
      · next hany =>
        cases h
        exact ⟨rfl, .any hany⟩
      · cases h
    · split at h
      · next hchar =>
        cases h
        exact ⟨rfl, hchar ▸ .char⟩
      · cases h
    · cases h
  · rintro ⟨rfl, htakes⟩
    cases htakes with
    | start => rfl
    | finish => rfl
    | any h => simp only [take?, List.singleton_append, if_pos h]
    | char => simp [take?]

/-- Tries the pieces at a place. A starred piece is tried after itself only where it has taken
something. -/
def reads (dotAll : Bool) : List Piece → List Char → List Char → Bool
  | [], _, _ => true
  | ⟨atom, false⟩ :: pieces, before, rest =>
    match atom.take? dotAll before rest with
    | some (taken, after) => reads dotAll pieces (before ++ taken) after
    | none => false
  | ⟨atom, true⟩ :: pieces, before, rest =>
    reads dotAll pieces before rest ||
      match atom.take? dotAll before rest with
      | some (taken, after) =>
        if after.length < rest.length then
          reads dotAll (⟨atom, true⟩ :: pieces) (before ++ taken) after
        else false
      | none => false
termination_by pieces _ rest => (pieces.length, rest.length)

theorem reads_sound {dotAll : Bool} {pieces : List Piece} {before rest : List Char}
    (h : reads dotAll pieces before rest = true) : Reads dotAll pieces before rest := by
  fun_induction reads with
  | case1 => exact .nil
  | case2 atom pieces before rest taken after htake ih =>
    obtain ⟨rfl, htakes⟩ := Atom.take?_eq_some_iff.mp htake
    exact .once htakes (ih h)
  | case3 => cases h
  | case4 atom pieces before rest hstop hmore =>
    rcases (Bool.or_eq_true ..).mp h with h | h
    · exact .stop (hstop h)
    · split at h
      · next taken after htake =>
        obtain ⟨rfl, htakes⟩ := Atom.take?_eq_some_iff.mp htake
        split at h
        · next hless => exact .more htakes (hmore taken after hless h)
        · cases h
      · cases h

theorem reads_complete {dotAll : Bool} {pieces : List Piece} {before rest : List Char}
    (h : Reads dotAll pieces before rest) : reads dotAll pieces before rest = true := by
  induction h with
  | nil => rw [reads]
  | once htakes _ ih =>
    have htake := Atom.take?_eq_some_iff.mpr ⟨rfl, htakes⟩
    simp only [reads, htake, ih]
  | stop _ ih => rw [reads, ih, Bool.true_or]
  | @more atom pieces before taken after htakes _ ih =>
    cases taken with
    | nil => simpa using ih
    | cons c taken =>
      have htake := Atom.take?_eq_some_iff.mpr ⟨rfl, htakes⟩
      have hless : after.length < (c :: taken ++ after).length := by
        simp only [List.length_append, List.length_cons]
        omega
      rw [reads, htake]
      simp only [if_pos hless, ih, Bool.or_true]

/-- A search that reads the source and tries its pieces at every place of the text. -/
def isMatch (source text : String) : Bool :=
  (ofSource? source).any fun e => (List.range (text.toList.length + 1)).any fun i =>
    reads e.dotAll e.pieces (text.toList.take i) (text.toList.drop i)

theorem isMatch_decides : Decides isMatch := by
  intro source e he text
  simp only [isMatch, he, Option.any_some, List.any_eq_true, List.mem_range]
  constructor
  · rintro ⟨i, -, h⟩
    exact ⟨_, _, (List.take_append_drop ..).symm, reads_sound h⟩
  · rintro ⟨before, after, htext, h⟩
    refine ⟨before.length, ?_, ?_⟩
    · simp only [htext, List.length_append]
      omega
    · simpa [htext] using reads_complete h

end Expression

end GuardedSearch
