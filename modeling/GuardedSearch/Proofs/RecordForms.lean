import GuardedSearch.Json.Record
import GuardedSearch.Proofs.Dictionary
import GuardedSearch.Proofs.JsonText

/-!
# Forms of records

The parts of a record are read back from their form: lists, tables and the members of an object by
their keys. A form is as deep as brackets and braces stand open inside each other in its text.
-/

namespace GuardedSearch

variable {α : Type}

-- ---------------------------------------------------------------------------
-- Tables
-- ---------------------------------------------------------------------------

namespace Table

/-- The set of a set's names is the set. -/
theorem ofNames_keys (s : NameSet) : NameSet.ofNames s.keys = s := by
  have hentries : s.keys.map (·, ()) = s.entries := by
    rw [keys, List.map_map]
    exact List.map_id s.entries
  rw [NameSet.ofNames, hentries, ofList_entries]

end Table

namespace Json

-- ---------------------------------------------------------------------------
-- Depth
-- ---------------------------------------------------------------------------

mutual

/-- How many brackets and braces stand open inside each other in the text of a value. -/
def depth : Json → Nat
  | .array items => depthOfItems items + 1
  | .object members => depthOfMembers members + 1
  | _ => 0

def depthOfItems : List Json → Nat
  | [] => 0
  | item :: rest => max (depth item) (depthOfItems rest)

def depthOfMembers : List (String × Json) → Nat
  | [] => 0
  | (_, value) :: rest => max (depth value) (depthOfMembers rest)

end

theorem depthOfItems_le_iff {items : List Json} {n : Nat} :
    depthOfItems items ≤ n ↔ ∀ item ∈ items, item.depth ≤ n := by
  induction items with
  | nil => simp [depthOfItems]
  | cons item rest ih => rw [depthOfItems, Nat.max_le, ih, List.forall_mem_cons]

theorem depthOfMembers_le_iff {members : List (String × Json)} {n : Nat} :
    depthOfMembers members ≤ n ↔ ∀ m ∈ members, m.2.depth ≤ n := by
  induction members with
  | nil => simp [depthOfMembers]
  | cons m rest ih => rw [depthOfMembers, Nat.max_le, ih, List.forall_mem_cons]

theorem depth_choice (name : String) (content : Json) :
    (choice name content).depth = content.depth + 1 := by
  rw [choice, depth, depthOfMembers, depthOfMembers, Nat.max_zero]

-- ---------------------------------------------------------------------------
-- Texts
-- ---------------------------------------------------------------------------

theorem arePlain_iff {items : List Json} : ArePlain items ↔ ∀ item ∈ items, item.IsPlain := by
  induction items with
  | nil => simp [ArePlain]
  | cons item rest ih => rw [ArePlain, ih, List.forall_mem_cons]

theorem membersArePlain_iff {members : List (String × Json)} :
    MembersArePlain members ↔ ∀ m ∈ members, m.2.IsPlain := by
  induction members with
  | nil => simp [MembersArePlain]
  | cons m rest ih => rw [MembersArePlain, ih, List.forall_mem_cons]

/-- A value that opens nothing and has a text. -/
def OpensNothing : Json → Prop
  | .null | .bool _ | .int _ | .string _ => True
  | _ => False

theorem OpensNothing.isPlain {j : Json} (h : j.OpensNothing) : j.IsPlain := by
  cases j <;> trivial

theorem OpensNothing.depth_le {j : Json} (h : j.OpensNothing) : j.depth ≤ 0 := by
  cases j <;> first | exact h.elim | exact Nat.le_refl 0

theorem ofOption_opensNothing {write : α → Json} (h : ∀ a, (write a).OpensNothing) (o : Option α) :
    (ofOption write o).OpensNothing := by
  cases o with
  | none => trivial
  | some a => exact h a

theorem arePlain_map {write : α → Json} (h : ∀ a, (write a).IsPlain) (l : List α) :
    ArePlain (l.map write) :=
  arePlain_iff.mpr (List.forall_mem_map.mpr fun a _ => h a)

theorem ofTable_isPlain {write : α → Json} (h : ∀ a, (write a).IsPlain) (t : Table α) :
    (ofTable write t).IsPlain :=
  membersArePlain_iff.mpr (List.forall_mem_map.mpr fun e _ => h e.2)

-- ---------------------------------------------------------------------------
-- Parts that are read back
-- ---------------------------------------------------------------------------

theorem mapM_eq_some_iff {β : Type} {f : α → Option β} {l : List α} {r : List β} :
    l.mapM f = some r ↔ l.map f = r.map some := by
  induction l generalizing r with
  | nil => cases r <;> simp
  | cons a l ih =>
    simp only [List.mapM_cons, Option.bind_eq_bind, Option.bind_eq_some_iff, ih, Option.pure_def,
      Option.some_inj, List.map_cons]
    constructor
    · rintro ⟨b, hb, bs, hbs, rfl⟩
      rw [hb, hbs, List.map_cons]
    · intro h
      cases r with
      | nil => cases h
      | cons b bs =>
        obtain ⟨hb, hbs⟩ := List.cons.inj h
        exact ⟨b, hb, bs, hbs, rfl⟩

/-- Where no key repeats, a key finds its member. -/
theorem filter_key {members : List (String × Json)} (h : (members.map (·.1)).Nodup)
    {m : String × Json} (hm : m ∈ members) : members.filter (·.1 == m.1) = [m] := by
  induction members with
  | nil => cases hm
  | cons first rest ih =>
    rw [List.map_cons, List.nodup_cons] at h
    rcases List.mem_cons.mp hm with rfl | hm
    · have hnone : rest.filter (·.1 == m.1) = [] := by
        rw [List.filter_eq_nil_iff]
        intro e he hkey
        exact h.1 (eq_of_beq hkey ▸ List.mem_map_of_mem he)
      simp [hnone]
    · have hne : ¬ (first.1 == m.1) = true := fun hkey =>
        h.1 (eq_of_beq hkey ▸ List.mem_map_of_mem hm)
      simp [hne, ih h.2 hm]

/-- The members of an object are read as those of a record with its keys. -/
theorem record?_members (members : List (String × Json)) (h : (members.map (·.1)).Nodup) :
    record? (members.map (·.1)) (.object members) = some (members.map fun m => some m.2) := by
  rw [record?, mapM_eq_some_iff, List.map_map, List.map_map]
  refine List.map_congr_left fun m hm => ?_
  rw [Function.comp_apply, onlyMember?, filter_key h hm]
  rfl

theorem unitChoice?_string {choices : List (String × α)} (h : (choices.map (·.1)).Nodup)
    {choice : String × α} (hchoice : choice ∈ choices) :
    unitChoice? choices (.string choice.1) = some choice.2 := by
  obtain ⟨before, after, rfl⟩ := List.append_of_mem hchoice
  rw [List.map_append, List.map_cons, List.nodup_append] at h
  refine List.lookup_eq_some_iff.mpr ⟨before, after, rfl, fun other hother => ?_⟩
  rw [bne_iff_ne]
  exact (h.2.2 other.1 (List.mem_map_of_mem hother) choice.1 List.mem_cons_self).symm

theorem Names.ofJson?_toJson (names : Names α) (a : α) :
    names.ofJson? (names.toJson a) = some a := by
  have hkeys : (names.all.map fun b => (names.name b, b)).map (·.1) = names.all.map names.name :=
    List.map_map
  exact unitChoice?_string (hkeys ▸ names.nodup_name) (List.mem_map_of_mem (names.mem_all a))

theorem nat?_ofNat {bound n : Nat} (h : n < bound) : nat? bound (.int n) = some n := by
  rw [nat?, if_pos (by omega), Int.toNat_natCast]

theorem lt_of_nat? {bound n : Nat} {j : Json} (h : nat? bound j = some n) : n < bound := by
  cases j with
  | int value =>
    rw [nat?] at h
    split at h
    · next hvalue =>
      obtain rfl := Option.some.inj h
      omega
    · cases h
  | _ => cases h

section Parts

variable {read : Json → Option α} {write : α → Json}

theorem list?_map {l : List α} (h : ∀ a ∈ l, read (write a) = some a) :
    list? read (.array (l.map write)) = some l := by
  rw [list?, mapM_eq_some_iff, List.map_map]
  exact List.map_congr_left h

theorem table?_ofTable {t : Table α} (h : ∀ a ∈ t.values, read (write a) = some a) :
    table? read (ofTable write t) = some t := by
  have hentries : (t.entries.map fun e => (e.1, write e.2)).mapM
      (fun m => do return (m.1, ← read m.2)) = some t.entries := by
    rw [mapM_eq_some_iff, List.map_map]
    refine List.map_congr_left fun e he => ?_
    rw [Function.comp_apply, h e.2 (List.mem_map_of_mem he)]
    rfl
  rw [ofTable, table?, hentries]
  exact congrArg some t.ofList_entries

-- ---------------------------------------------------------------------------
-- Parts that have been read
-- ---------------------------------------------------------------------------

/-- What is read of a list has been read of its items. -/
theorem read_of_mem_list? {j : Json} {l : List α} (h : list? read j = some l) :
    ∀ a ∈ l, ∃ item, read item = some a := by
  cases j with
  | array items =>
    rw [list?, mapM_eq_some_iff] at h
    intro a ha
    have hmem := List.mem_map_of_mem (f := some) ha
    rw [← h] at hmem
    obtain ⟨item, -, hitem⟩ := List.mem_map.mp hmem
    exact ⟨item, hitem⟩
  | _ => cases h

end Parts

end Json

end GuardedSearch
