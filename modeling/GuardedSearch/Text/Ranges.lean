/-!
# Ranges of code points

A property of characters as a table of ranges.
-/

namespace GuardedSearch.Text

/-- Ranges of code points, both ends included, in ascending order. -/
abbrev Ranges := Array (Nat × Nat)

namespace Ranges

def contains (ranges : Ranges) (c : Char) : Bool :=
  ranges.any fun r => r.1 ≤ c.toNat && c.toNat ≤ r.2

end Ranges

end GuardedSearch.Text
