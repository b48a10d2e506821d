import GuardedSearch.Table

/-!
# Texts and their bytes

Texts compare by code points. `bytes_lt_iff` and `bytes_prefix_iff` say that this is the order
of their UTF-8 bytes, and that one text begins with another just when its bytes do.
-/

namespace GuardedSearch.Text

/-- The UTF-8 bytes of a text. -/
def bytes (s : String) : List UInt8 := s.toList.flatMap String.utf8EncodeChar

theorem toNat_ofNat_of_lt {n : Nat} (h : n < 256) : (UInt8.ofNat n).toNat = n := by
  rw [UInt8.toNat_ofNat', Nat.mod_eq_of_lt h]

-- ---------------------------------------------------------------------------
-- One character
-- ---------------------------------------------------------------------------

theorem base64_digits (n : Nat) :
    n = n / 262144 * 262144 + n / 4096 % 64 * 4096 + n / 64 % 64 * 64 + n % 64 := by
  have h₁ : n / 64 / 64 = n / 4096 := Nat.div_div_eq_div_mul n 64 64
  have h₂ : n / 4096 / 64 = n / 262144 := Nat.div_div_eq_div_mul n 4096 64
  omega

/-- Of two numbers the smaller has the smaller first digit that differs. -/
theorem base64_lt {m n : Nat} (h : m < n) :
    m / 262144 < n / 262144 ∨ m / 262144 = n / 262144 ∧
      (m / 4096 % 64 < n / 4096 % 64 ∨ m / 4096 % 64 = n / 4096 % 64 ∧
        (m / 64 % 64 < n / 64 % 64 ∨ m / 64 % 64 = n / 64 % 64 ∧ m % 64 < n % 64)) := by
  have hm := base64_digits m
  have hn := base64_digits n
  have bound (k : Nat) : k % 64 < 64 := Nat.mod_lt _ (by decide)
  have hm₂ := bound (m / 4096)
  have hm₁ := bound (m / 64)
  have hm₀ := bound m
  have hn₂ := bound (n / 4096)
  have hn₁ := bound (n / 64)
  have hn₀ := bound n
  -- with the digits as variables the sum alone decides
  generalize m / 262144 = a, m / 4096 % 64 = b, m / 64 % 64 = c, m % 64 = d at *
  generalize n / 262144 = a', n / 4096 % 64 = b', n / 64 % 64 = c', n % 64 = d' at *
  omega

/-- Whatever follows them, the bytes of the smaller character come first. -/
theorem utf8_append_lt {c d : Char} (h : c < d) (rest rest' : List UInt8) :
    String.utf8EncodeChar c ++ rest < String.utf8EncodeChar d ++ rest' := by
  have hlt : c.val.toNat < d.val.toNat := h
  have hd : d.val.toNat < 0x110000 := by
    have := d.valid
    grind
  have hdigits := base64_lt hlt
  unfold String.utf8EncodeChar
  simp only
  generalize c.val.toNat = m at hlt hdigits ⊢
  generalize d.val.toNat = n at hlt hd hdigits ⊢
  repeat' split
  all_goals
    simp (disch := omega) only [List.cons_append, List.nil_append, List.cons_lt_cons_iff,
      UInt8.lt_iff_toNat_lt, ← UInt8.toNat_inj, toNat_ofNat_of_lt, Nat.mod_eq_of_lt]
    omega

theorem utf8_ne_nil (c : Char) : String.utf8EncodeChar c ≠ [] := by
  unfold String.utf8EncodeChar
  simp only
  repeat' split
  all_goals exact List.cons_ne_nil _ _

theorem char_lt_or_lt {c d : Char} (h : c ≠ d) : c < d ∨ d < c := by
  simp only [Char.lt_def, UInt32.lt_iff_toNat_lt]
  have : c.val.toNat ≠ d.val.toNat := fun heq => h (Char.ext (UInt32.toNat_inj.mp heq))
  omega

-- ---------------------------------------------------------------------------
-- Whole texts
-- ---------------------------------------------------------------------------

theorem flatMap_utf8_lt {s t : List Char} (h : s < t) :
    s.flatMap String.utf8EncodeChar < t.flatMap String.utf8EncodeChar := by
  induction h with
  | nil =>
    rename_i d t
    obtain ⟨b, bs, hb⟩ := List.exists_cons_of_ne_nil (utf8_ne_nil d)
    simp [List.flatMap_cons, hb]
  | rel hlt => exact utf8_append_lt hlt _ _
  | cons _ ih => exact List.append_left_lt ih

/-- The order of texts is the order of their bytes. -/
theorem bytes_lt_iff {s t : String} : bytes s < bytes t ↔ s < t := by
  refine ⟨fun h => ?_, fun h => flatMap_utf8_lt h⟩
  apply Classical.byContradiction
  intro hnot
  by_cases heq : s = t
  · subst heq
    exact List.lt_irrefl _ h
  · have hlt := flatMap_utf8_lt (Table.lt_of_not_le heq hnot)
    exact List.lt_irrefl _ (List.lt_trans h hlt)

theorem prefix_of_flatMap_utf8 {s t : List Char} :
    s.flatMap String.utf8EncodeChar <+: t.flatMap String.utf8EncodeChar → s <+: t := by
  induction s generalizing t with
  | nil => exact fun _ => List.nil_prefix
  | cons c s ih =>
    rintro ⟨rest, hrest⟩
    cases t with
    | nil =>
      have := utf8_ne_nil c
      simp_all
    | cons d t =>
      simp only [List.flatMap_cons, List.append_assoc] at hrest
      by_cases hcd : c = d
      · subst hcd
        exact (List.cons_prefix_cons).mpr ⟨rfl, ih ⟨rest, List.append_cancel_left hrest⟩⟩
      · -- two texts that differ in a character do not have the same bytes
        rcases char_lt_or_lt hcd with hlt | hlt
        · exact absurd (hrest ▸ utf8_append_lt hlt _ _) (List.lt_irrefl _)
        · exact absurd (hrest ▸ utf8_append_lt hlt _ _) (List.lt_irrefl _)

/-- A text begins with another just when its bytes do. -/
theorem bytes_prefix_iff {s t : String} : bytes s <+: bytes t ↔ s.toList <+: t.toList := by
  refine ⟨prefix_of_flatMap_utf8, ?_⟩
  rintro ⟨rest, hrest⟩
  exact ⟨rest.flatMap String.utf8EncodeChar, by rw [bytes, bytes, ← hrest, List.flatMap_append]⟩

-- ---------------------------------------------------------------------------
-- Texts that begin alike
-- ---------------------------------------------------------------------------

/-- What stands between a stem and a text that begins with it begins with it too. -/
theorem prefix_of_between {stem s t : List Char} (hs : ¬ s < stem) (hst : s < t)
    (ht : stem <+: t) : stem <+: s := by
  induction stem generalizing s t with
  | nil => exact List.nil_prefix
  | cons c stem ih =>
    obtain ⟨rest, rfl⟩ := ht
    cases s with
    | nil => exact absurd (List.nil_lt_cons ..) hs
    | cons d s =>
      rw [List.cons_append, List.cons_lt_cons_iff] at hst
      rw [List.cons_lt_cons_iff, not_or] at hs
      obtain ⟨rfl, hlt⟩ := hst.resolve_left hs.1
      exact List.cons_prefix_cons.mpr
        ⟨rfl, ih (fun h => hs.2 ⟨rfl, h⟩) hlt (List.prefix_append ..)⟩

end GuardedSearch.Text
