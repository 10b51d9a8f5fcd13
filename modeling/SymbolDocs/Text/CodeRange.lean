/-!
# Sets of code points

A set of code points is written as a list of inclusive ranges. `mem_iff` says what membership means.
-/

namespace SymbolDocs.Text

/-- A set of code points, as inclusive ranges. -/
abbrev CodeRanges := List (Nat × Nat)

/-- Whether a character lies in one of the ranges. -/
def CodeRanges.mem (ranges : CodeRanges) (c : Char) : Bool :=
  ranges.any fun r => r.1 ≤ c.toNat && c.toNat ≤ r.2

theorem CodeRanges.mem_iff (ranges : CodeRanges) (c : Char) :
    ranges.mem c = true ↔ ∃ r ∈ ranges, r.1 ≤ c.toNat ∧ c.toNat ≤ r.2 := by
  simp [CodeRanges.mem]

end SymbolDocs.Text
