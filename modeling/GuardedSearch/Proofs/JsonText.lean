import GuardedSearch.Json.Parser
import GuardedSearch.Proofs.JsonTokens

/-!
# The text of a JSON value

A value is built again from its tokens, so that a value is read back from its text
(`parse?_toText`).
-/

namespace GuardedSearch.Json

-- ---------------------------------------------------------------------------
-- Objects
-- ---------------------------------------------------------------------------

/-- Members with keys that are text. -/
def named (members : List (String × Json)) : Members := members.map fun m => (some m.1, m.2)

theorem mapM_named (members : List (String × Json)) :
    (named members).mapM (fun m => m.1.map (·, m.2)) = some members := by
  induction members with
  | nil => rfl
  | cons m rest ih =>
    rw [named, List.map_cons, List.mapM_cons, ← named, ih]
    rfl

theorem ofMembers_named (members : List (String × Json)) :
    ofMembers (named members) = .object members.reverse := by
  rw [ofMembers, mapM_named]

-- ---------------------------------------------------------------------------
-- Building
-- ---------------------------------------------------------------------------

namespace Building

/-- A value may begin here, with any token that begins one. -/
def Begins (stack : List Frame) (point : Point) : Prop :=
  ∀ token, token ≠ .closeItems → step? (stack, point) token = begin? stack token

theorem value_begins (stack : List Frame) : Begins stack .value := fun _ _ => rfl

theorem firstItem_begins (stack : List Frame) : Begins (.items [] :: stack) .firstItem := by
  intro token htoken
  cases token with
  | closeItems => exact absurd rfl htoken
  | _ => rfl

mutual

/-- From the tokens of a value the value is built. -/
theorem build_tokens : (j : Json) → j.IsPlain → {stack : List Frame} → {point : Point} →
    Begins stack point → j.tokens.foldlM step? (stack, point) = some (stack, .after j)
  | .null, _, stack, point, hbegins | .bool _, _, stack, point, hbegins
  | .int _, _, stack, point, hbegins | .string _, _, stack, point, hbegins
  | .array [], _, stack, point, hbegins | .object [], _, stack, point, hbegins => by
    rw [tokens, List.foldlM_cons, hbegins _ (by simp)]
    rfl
  | .array (item :: rest), h, stack, point, hbegins => by
    rw [tokens, List.foldlM_cons, hbegins _ (by simp)]
    exact build_items (item :: rest) h (by simp) [] (firstItem_begins stack)
  | .object (m :: rest), h, stack, point, hbegins => by
    rw [tokens, List.foldlM_cons, hbegins _ (by simp)]
    exact build_members (m :: rest) h (by simp) [] fun _ => rfl

/-- Items are put behind those that have been built. -/
theorem build_items : (items : List Json) → ArePlain items → items ≠ [] → (done : List Json) →
    {stack : List Frame} → {point : Point} → Begins (.items done :: stack) point →
    (itemTokens items).foldlM step? (.items done :: stack, point) =
      some (stack, .after (.array (done.reverse ++ items)))
  | [], _, hne, _, _, _, _ => absurd rfl hne
  | [item], h, _, done, stack, point, hbegins => by
    rw [itemTokens, List.foldlM_append, build_tokens item h.1 hbegins]
    simp [step?]
  | item :: next :: rest, h, _, done, stack, point, hbegins => by
    have hrest := build_items (next :: rest) h.2 (by simp) (item :: done)
      (value_begins (.items (item :: done) :: stack))
    rw [itemTokens, List.foldlM_append, build_tokens item h.1 hbegins]
    · simpa [step?] using hrest
    · simp

/-- Members are put behind those that have been built. -/
theorem build_members : (members : List (String × Json)) → MembersArePlain members →
    members ≠ [] → (done : List (String × Json)) → {stack : List Frame} → {point : Point} →
    (∀ key, step? (stack, point) (.string (some key)) =
      some (stack, .colon (named done) (some key))) →
    (memberTokens members).foldlM step? (stack, point) =
      some (stack, .after (.object (done.reverse ++ members)))
  | [], _, hne, _, _, _, _ => absurd rfl hne
  | [(key, value)], h, _, done, stack, point, hkey => by
    have hvalue := build_tokens value h.1 (value_begins (.members (named done) (some key) :: stack))
    have hdone := ofMembers_named ((key, value) :: done)
    rw [memberTokens, List.foldlM_cons, hkey]
    change (value.tokens ++ [Token.closeMembers]).foldlM step?
      (.members (named done) (some key) :: stack, .value) = _
    rw [List.foldlM_append, hvalue]
    change some (stack, Point.after (ofMembers (named ((key, value) :: done)))) = _
    rw [hdone, List.reverse_cons]
  | (key, value) :: next :: rest, h, _, done, stack, point, hkey => by
    have hvalue := build_tokens value h.1 (value_begins (.members (named done) (some key) :: stack))
    have hrest := @build_members (next :: rest) h.2 (by simp) ((key, value) :: done) stack
      (.nextKey (named ((key, value) :: done))) fun _ => rfl
    rw [memberTokens, List.foldlM_cons, hkey]
    · change (value.tokens ++ Token.comma :: memberTokens (next :: rest)).foldlM step?
        (.members (named done) (some key) :: stack, .value) = _
      rw [List.foldlM_append, hvalue]
      change (memberTokens (next :: rest)).foldlM step?
        (stack, Point.nextKey (named ((key, value) :: done))) = _
      rw [hrest, List.reverse_cons, List.append_assoc]
      rfl
    · simp

end

end Building

theorem ofTokens?_tokens {j : Json} (h : j.IsPlain) : ofTokens? j.tokens = some j := by
  rw [ofTokens?, Building.build_tokens j h (Building.value_begins [])]
  rfl

/-- A value is read back from its text. -/
theorem parse?_toText {j : Json} (h : j.IsPlain) : parse? j.toText = some j := by
  rw [parse?, toText, String.toList_ofList, tokens?_render h]
  exact ofTokens?_tokens h

end GuardedSearch.Json
