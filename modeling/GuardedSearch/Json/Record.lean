import GuardedSearch.Json.Parser
import GuardedSearch.Table
import GuardedSearch.Word

/-!
# JSON records

How the parts of a record are read from JSON. A record is an object, or an array of its
members in order; a choice is its name, or an object with the name as its only key.
-/

namespace GuardedSearch.Json

variable {α : Type}

/-- A value, if a reader that may open `room` more brackets and braces gets into it. -/
def inside? (room : Nat) (j : Json) : Option Json :=
  match j with
  | .array _ | .object _ => if 0 < room then some j else none
  | _ => some j

def string? : Json → Option String
  | .string s => some s
  | _ => none

def bool? : Json → Option Bool
  | .bool b => some b
  | _ => none

def int? : Json → Option Int
  | .int n => some n
  | _ => none

/-- A count below `bound`. -/
def nat? (bound : Nat) : Json → Option Nat
  | .int n => if 0 ≤ n ∧ n < bound then some n.toNat else none
  | _ => none

def count? : Json → Option Nat := nat? Word.size64

def list? (item? : Json → Option α) : Json → Option (List α)
  | .array items => items.mapM item?
  | _ => none

/-- An object as a table. Of several members with one key the last stands, but all have to be
readable. -/
def table? (value? : Json → Option α) : Json → Option (Table α)
  | .object members => do
    return Table.ofList (← members.mapM fun m => return (m.1, ← value? m.2))
  | _ => none

def optional? (value? : Json → Option α) : Json → Option (Option α)
  | .null => some none
  | j => (value? j).map some

/-- An optional member: absent, `null` or a value. -/
def member? (value? : Json → Option α) : Option Json → Option (Option α)
  | none => some none
  | some j => optional? value? j

/-- The member with this key, which stands at most once. -/
def onlyMember? (members : List (String × Json)) (key : String) : Option (Option Json) :=
  match members.filter (·.1 == key) with
  | [] => some none
  | [m] => some (some m.2)
  | _ => none

/-- The members of a record with the given keys, in their order. Other keys of an object are
passed over; an array has exactly one item per key. -/
def record? (keys : List String) : Json → Option (List (Option Json))
  | .object members => keys.mapM (onlyMember? members)
  | .array items => if items.length = keys.length then some (items.map some) else none
  | _ => none

def unitName? : Json → Option String
  | .string name => some name
  | .object [(name, .null)] => some name
  | _ => none

def unitChoice? (choices : List (String × α)) (j : Json) : Option α :=
  (unitName? j).bind fun name => choices.lookup name

/-- The names of the values of an enumeration: every value has one, and no name stands for two. -/
structure Names (α : Type) where
  all : List α
  name : α → String
  mem_all : ∀ a, a ∈ all
  nodup_name : (all.map name).Nodup

namespace Names

def toJson (names : Names α) (a : α) : Json := .string (names.name a)

def ofJson? (names : Names α) : Json → Option α :=
  unitChoice? (names.all.map fun a => (names.name a, a))

end Names

/-- A choice with content, as its name and the content. -/
def choice (name : String) (content : Json) : Json := .object [(name, content)]

def ofTable (write : α → Json) (t : Table α) : Json :=
  .object (t.entries.map fun e => (e.1, write e.2))

def ofOption (write : α → Json) : Option α → Json
  | some a => write a
  | none => .null

end GuardedSearch.Json
