/-!
# Ranges of code points

A class of characters given by a short list of closed ranges of code points.

## Main Definitions

* `Ranges` — a list of closed ranges
* `Ranges.covers` — membership of a character
-/

namespace SccSharp.Text

/-- Closed ranges of code points, first and last. -/
abbrev Ranges := List (Nat × Nat)

/-- Whether a character lies in one of the ranges. -/
def Ranges.covers (ranges : Ranges) (c : Char) : Bool :=
  ranges.any fun range => range.1 ≤ c.toNat && c.toNat ≤ range.2

/-- Membership, read as a proposition. -/
theorem Ranges.covers_iff (ranges : Ranges) (c : Char) :
    ranges.covers c = true ↔ ∃ range ∈ ranges, range.1 ≤ c.toNat ∧ c.toNat ≤ range.2 := by
  simp [Ranges.covers]

end SccSharp.Text
