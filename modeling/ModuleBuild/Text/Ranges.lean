/-
  ModuleBuild.Text.Ranges
  ───────────────────────
  **CLASSES OF CODE POINTS AS RANGES.**

  A property of the Unicode standard is a list of closed ranges of numbers;
  a code point has the property when one of the ranges holds its number.
-/
import ModuleBuild.Text.Basic

namespace ModuleBuild

namespace CodePoint

/-- Whether one of the ranges, ends included, holds the number of the code point. -/
def inRanges (ranges : List (Nat × Nat)) (c : CodePoint) : Bool :=
  ranges.any fun r => r.1 ≤ c.code && c.code ≤ r.2

theorem inRanges_iff {ranges : List (Nat × Nat)} {c : CodePoint} :
    inRanges ranges c = true ↔ ∃ r ∈ ranges, r.1 ≤ c.code ∧ c.code ≤ r.2 := by
  simp [inRanges]

end CodePoint

end ModuleBuild
