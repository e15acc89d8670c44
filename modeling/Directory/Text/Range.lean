/-!
# Code point ranges

Character classes are given as lists of closed ranges of code points, and a character belongs to a
class when one of the ranges holds it.
-/

namespace Directory.Text

/-- The code points from `first` to `last`, both included. -/
abbrev Range := Nat × Nat

/-- The character lies in one of the ranges. -/
def inRanges (rs : List Range) (c : Char) : Bool :=
  rs.any fun r => decide (r.1 ≤ c.toNat) && decide (c.toNat ≤ r.2)

theorem inRanges_iff {rs : List Range} {c : Char} :
    inRanges rs c = true ↔ ∃ r ∈ rs, r.1 ≤ c.toNat ∧ c.toNat ≤ r.2 := by
  simp [inRanges]

end Directory.Text
