/-!
# Wildcard patterns

A pattern matches a whole text: `*` stands for any run of characters, `?` for one character,
and every other character for itself.
-/

namespace GuardedSearch.Glob

def anyRun : Char := '*'

def anyOne : Char := '?'

/-- For each suffix of a text, from the whole text down to the empty one, whether some suffix
of it is marked. -/
def anySuffix : List Bool → List Bool
  | [] => []
  | mark :: rest =>
    let rest := anySuffix rest
    (mark || rest.head?.getD false) :: rest

/-- For each suffix of a text, whether it begins with a character that satisfies `p` and what
follows that character is marked. -/
def firstThen (p : Char → Bool) : List Char → List Bool → List Bool
  | c :: cs, _ :: marks => (p c && marks.head?.getD false) :: firstThen p cs marks
  | _, _ => [false]

/-- Marks the suffixes of `text` that the pattern matches, from the whole text down to the
empty one. -/
def matchedSuffixes : List Char → List Char → List Bool
  | [], text => text.map (fun _ => false) ++ [true]
  | c :: pattern, text =>
    let marks := matchedSuffixes pattern text
    if c = anyRun then anySuffix marks
    else if c = anyOne then firstThen (fun _ => true) text marks
    else firstThen (· == c) text marks

/-- Whether the pattern matches the text. -/
def isMatch (pattern text : String) : Bool :=
  (matchedSuffixes pattern.toList text.toList).head?.getD false

/-- The text that every match begins with: the pattern up to its first wildcard. -/
def literalStart (pattern : String) : String :=
  String.ofList (pattern.toList.takeWhile fun c => c ≠ anyRun ∧ c ≠ anyOne)

end GuardedSearch.Glob
