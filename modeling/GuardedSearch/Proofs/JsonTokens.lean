import GuardedSearch.Json.Token
import GuardedSearch.Proofs.Numerals
import Mathlib.Data.List.TakeWhile

/-!
# The tokens of a JSON text

The lexer finds in the text of a value the tokens of the value (`tokens?_render`). In the middle of
a word it has not seen yet where the word ends, so what is said of its state is what it does when
the text ends there or a character follows that ends a word.
-/

namespace GuardedSearch.Json

open Text

-- ---------------------------------------------------------------------------
-- Values with a text
-- ---------------------------------------------------------------------------

mutual

/-- A value whose text is written from what it holds: without decimals, which stand as their text
already, and without halves of surrogate pairs, which have none. -/
def IsPlain : Json → Prop
  | .decimal _ | .unpaired => False
  | .array items => ArePlain items
  | .object members => MembersArePlain members
  | _ => True

def ArePlain : List Json → Prop
  | [] => True
  | item :: rest => IsPlain item ∧ ArePlain rest

def MembersArePlain : List (String × Json) → Prop
  | [] => True
  | (_, value) :: rest => IsPlain value ∧ MembersArePlain rest

end

mutual

/-- The tokens of a value, in the order of its text. -/
def tokens : Json → List Token
  | .null => [.word .null]
  | .bool value => [.word (.bool value)]
  | .int value => [.word (.int value)]
  | .decimal text => [.word (.decimal text)]
  | .string s => [.string (some s)]
  | .unpaired => [.string none]
  | .array items => .openItems :: itemTokens items
  | .object members => .openMembers :: memberTokens members

def itemTokens : List Json → List Token
  | [] => [.closeItems]
  | [item] => tokens item ++ [.closeItems]
  | item :: rest => tokens item ++ .comma :: itemTokens rest

def memberTokens : List (String × Json) → List Token
  | [] => [.closeMembers]
  | [(key, value)] => .string (some key) :: .colon :: (tokens value ++ [.closeMembers])
  | (key, value) :: rest =>
    .string (some key) :: .colon :: (tokens value ++ .comma :: memberTokens rest)

end

-- ---------------------------------------------------------------------------
-- Words
-- ---------------------------------------------------------------------------

theorem mem_of_endsWord {c : Char} (h : endsWord c = true) :
    c ∈ [' ', '\n', '\r', '\t', '"', '[', ']', '\x7b', '\x7d', ',', ':'] := by
  by_contra hnot
  simp only [List.mem_cons, List.not_mem_nil, or_false, not_or] at hnot
  simp [endsWord, isSpace, Token.ofPunctuation?, hnot] at h

/-- Whether a character may stand in a numeral without a fraction. -/
def isNumeral (c : Char) : Bool := isDigit c || c == '-'

theorem endsWord_of_isNumeral {c : Char} (h : isNumeral c = true) : endsWord c = false := by
  by_contra hends
  have hmem := mem_of_endsWord (by simpa using hends)
  have hnone : [' ', '\n', '\r', '\t', '"', '[', ']', '\x7b', '\x7d', ',', ':'].all
      (fun d => !isNumeral d) = true := rfl
  have hnot := List.all_eq_true.mp hnone c hmem
  simp [h] at hnot

theorem takeWhile_decimals (n : Nat) : (decimals n).takeWhile isDigit = decimals n :=
  List.takeWhile_eq_self_iff.mpr fun c hc => isDigit_of_mem_decimals c hc

theorem dropWhile_decimals (n : Nat) : (decimals n).dropWhile isDigit = [] :=
  List.dropWhile_eq_nil_iff.mpr fun c hc => isDigit_of_mem_decimals c hc

/-- A number with more than one digit does not begin with a zero. -/
theorem head?_decimals_of_one_lt {n : Nat} (h : 1 < (decimals n).length) :
    (decimals n).head? ≠ some '0' := by
  refine head?_decimals (Nat.pos_of_ne_zero ?_)
  rintro rfl
  exact absurd h (by decide)

theorem number?_decimals (n : Nat) : number? (decimals n) = some (.int n) := by
  have hsign : ((decimals n).head? == some '-') = false := by
    rw [beq_eq_false_iff_ne]
    intro hhead
    cases isDigit_of_mem_decimals '-' (List.mem_of_head? hhead)
  have hzero : ((decimals n).head? == some '0' && 1 < (decimals n).length) = false := by
    rw [Bool.and_eq_false_iff, beq_eq_false_iff_ne, decide_eq_false_iff_not]
    by_cases hlength : 1 < (decimals n).length
    · exact .inl (head?_decimals_of_one_lt hlength)
    · exact .inr hlength
  simp [number?, hsign, takeWhile_decimals, dropWhile_decimals, hzero, decimals_ne_nil,
    ofDigits_decimals]

theorem number?_neg_decimals {n : Nat} (h : 0 < n) :
    number? ('-' :: decimals n) = some (.int (-n)) := by
  have hzero : ((decimals n).head? == some '0') = false :=
    beq_eq_false_iff_ne.mpr (head?_decimals h)
  have hone : (decimals n == ['0']) = false := by
    rw [beq_eq_false_iff_ne]
    intro hdigits
    exact head?_decimals h (by rw [hdigits]; rfl)
  simp [number?, takeWhile_decimals, dropWhile_decimals, hzero, hone, decimals_ne_nil,
    ofDigits_decimals]

/-- The digits of an integer, after a sign if it is negative. -/
theorem toList_toString (n : Int) : (toString n).toList =
    if 0 ≤ n then decimals n.toNat else '-' :: decimals (-n).toNat := by
  rw [Int.toString_eq_repr, Int.repr_eq_if]
  split
  · rfl
  · rw [String.toList_append]
    rfl

theorem number?_toString (n : Int) : number? (toString n).toList = some (.int n) := by
  rw [toList_toString]
  split
  · next h => rw [number?_decimals, Int.toNat_of_nonneg h]
  · next h =>
    rw [number?_neg_decimals (by omega), Int.toNat_of_nonneg (by omega), Int.neg_neg]

theorem isNumeral_of_mem_toString (n : Int) : ∀ c ∈ (toString n).toList, isNumeral c = true := by
  have hdigits (m : Nat) : ∀ c ∈ decimals m, isNumeral c = true := fun c hc => by
    rw [isNumeral, isDigit_of_mem_decimals c hc, Bool.true_or]
  rw [toList_toString]
  split
  · exact hdigits _
  · exact List.forall_mem_cons.mpr ⟨rfl, hdigits _⟩

/-- The text of an integer is none of the three names. -/
theorem Token.ofWord?_toString (n : Int) :
    ofWord? (toString n).toList = some (.word (.int n)) := by
  have hne {name : List Char} (h : name.all isNumeral = false) : (toString n).toList ≠ name := by
    rintro rfl
    rw [List.all_eq_true.mpr (isNumeral_of_mem_toString n)] at h
    cases h
  rw [ofWord?, if_neg (hne (by decide)), if_neg (hne (by decide)), if_neg (hne (by decide)),
    number?_toString]
  rfl

-- ---------------------------------------------------------------------------
-- Where a value ends
-- ---------------------------------------------------------------------------

namespace Lexer

/-- The lexer has read these tokens, in reverse, as far as may be told when the text ends or a
character follows that ends a word. -/
structure HasRead (lexer : Lexer) (tokens : List Token) : Prop where
  finish : lexer.finish? = some tokens.reverse
  next : ∀ c, endsWord c = true → step? lexer c = start? tokens c

theorem between_hasRead (tokens : List Token) : HasRead (.between, tokens) tokens :=
  ⟨rfl, fun _ _ => rfl⟩

theorem word_hasRead {taken : List Char} {tokens : List Token} {token : Token}
    (h : Token.ofWord? taken.reverse = some token) :
    HasRead (.word taken, tokens) (token :: tokens) where
  finish := by
    rw [finish?, h]
    rfl
  next c hc := by
    rw [step?, if_pos hc, h]
    rfl

theorem start?_of_not_endsWord {c : Char} (h : endsWord c = false) (tokens : List Token) :
    start? tokens c = some (.word [c], tokens) := by
  simp only [endsWord, Bool.or_eq_false_iff, beq_eq_false_iff_ne, Option.isSome_eq_false_iff,
    Option.isNone_iff_eq_none] at h
  simp [start?, h]

theorem read_word {cs : List Char} (h : cs.any endsWord = false) (taken : List Char)
    (tokens : List Token) :
    cs.foldlM step? (.word taken, tokens) = some (.word (cs.reverse ++ taken), tokens) := by
  induction cs generalizing taken with
  | nil => rfl
  | cons c cs ih =>
    rw [List.any_cons, Bool.or_eq_false_iff] at h
    obtain ⟨hc, hcs⟩ := h
    have hstep : step? (.word taken, tokens) c = some (.word (c :: taken), tokens) := by
      rw [step?, hc]
      rfl
    rw [List.foldlM_cons, hstep]
    simpa using ih hcs (c :: taken)

/-- A word is read when it ends. -/
theorem word_read {cs : List Char} {token : Token} (hword : Token.ofWord? cs = some token)
    (hne : cs ≠ []) (h : cs.any endsWord = false) (tokens : List Token) :
    ∃ lexer, cs.foldlM step? (.between, tokens) = some lexer ∧ lexer.HasRead (token :: tokens) := by
  cases cs with
  | nil => exact absurd rfl hne
  | cons c cs =>
    rw [List.any_cons, Bool.or_eq_false_iff] at h
    obtain ⟨hc, hcs⟩ := h
    have hstep : step? (.between, tokens) c = some (.word [c], tokens) :=
      start?_of_not_endsWord hc tokens
    rw [List.foldlM_cons, hstep]
    refine ⟨_, read_word hcs [c] tokens, word_hasRead ?_⟩
    simpa using hword

-- ---------------------------------------------------------------------------
-- Strings
-- ---------------------------------------------------------------------------

/-- Four hexadecimal digits are read as the code unit that they spell. -/
theorem read_unit {code : Nat} (h : code < 0x10000) (taken : Taken) (high : Option Nat)
    (tokens : List Token) :
    (fixedDigits 16 4 code).foldlM step? (.unit taken high 4 0, tokens) =
      some (Mode.afterUnit taken high code, tokens) := by
  have hdigit (n : Nat) : isHexDigit (digitChar (n % 16)) = true :=
    isHexDigit_digitChar (Nat.mod_lt _ (by decide))
  have hvalue (n : Nat) : digitValue (digitChar (n % 16)) = n % 16 :=
    digitValue_digitChar (Nat.mod_lt _ (by decide))
  have hcode : (((code / 16 / 16 / 16 % 16) * 16 + code / 16 / 16 % 16) * 16 + code / 16 % 16) * 16
      + code % 16 = code := by
    omega
  simp [fixedDigits, step?, hdigit, hvalue, hcode]

theorem afterUnit_of_lt {code : Nat} (h : code < 0x20) (taken : Taken) :
    Mode.afterUnit taken none code = .text (taken.push (Char.ofNat code)) := by
  have hhigh : isHighHalf code = false := by simp [isHighHalf]; omega
  have hlow : isLowHalf code = false := by simp [isLowHalf]; omega
  simp [Mode.afterUnit, hhigh, hlow]

/-- What is written for a character is read as this character. -/
theorem read_escapeChar (c : Char) (taken : List Char) (tokens : List Token) :
    (escapeChar c).foldlM step? (.text (some taken), tokens) =
      some (.text (some (c :: taken)), tokens) := by
  unfold escapeChar
  split_ifs with hquote hslash hb hf hn hr ht hcontrol
  · subst hquote; rfl
  · subst hslash; rfl
  · subst hb; rfl
  · subst hf; rfl
  · subst hn; rfl
  · subst hr; rfl
  · subst ht; rfl
  · have hescape : ('\\' :: 'u' :: fixedDigits 16 4 c.toNat).foldlM step?
        (.text (some taken), tokens) =
          (fixedDigits 16 4 c.toNat).foldlM step? (.unit (some taken) none 4 0, tokens) := rfl
    rw [hescape, read_unit (by omega), afterUnit_of_lt hcontrol, Char.ofNat_toNat]
    rfl
  · simp [step?, stepText?, hquote, hslash, hcontrol, Taken.push]

theorem read_escaped (cs taken : List Char) (tokens : List Token) :
    (cs.flatMap escapeChar).foldlM step? (.text (some taken), tokens) =
      some (.text (some (cs.reverse ++ taken)), tokens) := by
  induction cs generalizing taken with
  | nil => rfl
  | cons c cs ih =>
    rw [List.flatMap_cons, List.foldlM_append, read_escapeChar]
    simpa using ih (c :: taken)

/-- A string is read between its quotes. -/
theorem read_string (s : String) (tokens : List Token) :
    (renderString s).foldlM step? (.between, tokens) =
      some (.between, .string (some s) :: tokens) := by
  have hopen : step? (.between, tokens) '"' = some (.text (some []), tokens) := rfl
  have hclose (taken : List Char) : step? (.text (some taken), tokens) '"' =
      some (.between, .string (some (String.ofList taken.reverse)) :: tokens) := rfl
  rw [renderString, List.foldlM_cons, hopen]
  simp [read_escaped, hclose]

-- ---------------------------------------------------------------------------
-- Values
-- ---------------------------------------------------------------------------

/-- What follows a value is read from where the value has been read. -/
theorem HasRead.append {lexer : Lexer} {found : List Token} {before : List Char}
    {start : Lexer} (hread : before.foldlM step? start = some lexer) (h : lexer.HasRead found)
    {c : Char} (hc : endsWord c = true) (rest : List Char) :
    (before ++ c :: rest).foldlM step? start = (c :: rest).foldlM step? (.between, found) := by
  have hstep : step? lexer c = step? (.between, found) c := h.next c hc
  rw [List.foldlM_append, hread]
  change (c :: rest).foldlM step? lexer = _
  rw [List.foldlM_cons, List.foldlM_cons, hstep]

/-- A key is read with the colon after it. -/
theorem read_key (key : String) (rest : List Char) (found : List Token) :
    (renderString key ++ ':' :: rest).foldlM step? (.between, found) =
      rest.foldlM step? (.between, .colon :: .string (some key) :: found) := by
  rw [List.foldlM_append, read_string]
  rfl

mutual

/-- In the text of a value the lexer finds its tokens. -/
theorem read_render : (j : Json) → j.IsPlain → (found : List Token) →
    ∃ lexer, j.render.foldlM step? (.between, found) = some lexer ∧
      lexer.HasRead (j.tokens.reverse ++ found)
  | .null, _, found => word_read rfl (by decide) rfl found
  | .bool true, _, found => word_read rfl (by decide) rfl found
  | .bool false, _, found => word_read rfl (by decide) rfl found
  | .int n, _, found => by
    refine word_read (Token.ofWord?_toString n) ?_ ?_ found
    · intro hnil
      have hword := Token.ofWord?_toString n
      rw [hnil] at hword
      cases hword
    · exact List.any_eq_false.mpr fun c hc =>
        Bool.eq_false_iff.mp (endsWord_of_isNumeral (isNumeral_of_mem_toString n c hc))
  | .string s, _, found => ⟨_, read_string s found, between_hasRead _⟩
  | .array items, h, found => by
    have hread := read_renderItems items h (.openItems :: found)
    have hopen : step? (.between, found) '[' = some (.between, .openItems :: found) := rfl
    refine ⟨_, ?_, between_hasRead _⟩
    rw [render, List.foldlM_cons, hopen, tokens, List.reverse_cons, List.append_assoc]
    exact hread
  | .object members, h, found => by
    have hread := read_renderMembers members h (.openMembers :: found)
    have hopen : step? (.between, found) '\x7b' = some (.between, .openMembers :: found) := rfl
    refine ⟨_, ?_, between_hasRead _⟩
    rw [render, List.foldlM_cons, hopen, tokens, List.reverse_cons, List.append_assoc]
    exact hread

theorem read_renderItems : (items : List Json) → ArePlain items → (found : List Token) →
    (renderItems items).foldlM step? (.between, found) =
      some (.between, (itemTokens items).reverse ++ found)
  | [], _, _ => rfl
  | [item], h, found => by
    obtain ⟨lexer, hread, hhas⟩ := read_render item h.1 found
    rw [renderItems, hhas.append hread rfl, itemTokens, List.reverse_append, List.append_assoc]
    rfl
  | item :: next :: rest, h, found => by
    obtain ⟨lexer, hread, hhas⟩ := read_render item h.1 found
    have hrest := read_renderItems (next :: rest) h.2 (.comma :: (item.tokens.reverse ++ found))
    rw [renderItems, hhas.append hread rfl, itemTokens, List.reverse_append, List.reverse_cons,
      List.append_assoc, List.append_assoc]
    · exact hrest
    · simp
    · simp

theorem read_renderMembers : (members : List (String × Json)) → MembersArePlain members →
    (found : List Token) → (renderMembers members).foldlM step? (.between, found) =
      some (.between, (memberTokens members).reverse ++ found)
  | [], _, _ => rfl
  | [(key, value)], h, found => by
    obtain ⟨lexer, hread, hhas⟩ := read_render value h.1 (.colon :: .string (some key) :: found)
    rw [renderMembers, read_key, hhas.append hread rfl, memberTokens]
    simp only [List.reverse_cons, List.reverse_append, List.append_assoc, List.cons_append,
      List.nil_append, List.reverse_nil]
    rfl
  | (key, value) :: next :: rest, h, found => by
    obtain ⟨lexer, hread, hhas⟩ := read_render value h.1 (.colon :: .string (some key) :: found)
    have hrest := read_renderMembers (next :: rest) h.2
      (.comma :: (value.tokens.reverse ++ .colon :: .string (some key) :: found))
    rw [renderMembers, read_key, hhas.append hread rfl, memberTokens]
    · simp only [List.reverse_cons, List.reverse_append, List.append_assoc, List.cons_append,
        List.nil_append]
      exact hrest
    · simp
    · simp

end

end Lexer

theorem tokens?_render {j : Json} (h : j.IsPlain) : tokens? j.render = some j.tokens := by
  obtain ⟨lexer, hread, hhas⟩ := Lexer.read_render j h []
  rw [tokens?, hread]
  simpa using hhas.finish

end GuardedSearch.Json
