/-
  ModuleBuild.Proofs.Json.Scanning
  ────────────────────────────────
  **THE TWO SCANS, STEP BY STEP.**

  The scan for extra commas passes a string literal that ends as a whole, and
  an opening quote without an end as any character; it takes a comma away
  where a container ends behind it.

  Main results:
    * `dropTrailingCommas_literal`, `dropTrailingCommas_unclosed` — at a quote;
    * `dropTrailingCommas_extra` — at a comma that is taken away.
-/
import ModuleBuild.Proofs.Json.Layout

namespace ModuleBuild

namespace Jsonc

/-- A literal that ends is passed as a whole. -/
theorem dropTrailingCommas_literal {t body rest : Text} (h : literal? t = some (body, rest)) :
    dropTrailingCommas (CodePoint.quote :: t)
      = CodePoint.quote :: (body ++ dropTrailingCommas rest) := by
  rw [dropTrailingCommas, if_pos rfl]
  split
  · rename_i hsome
    rw [h] at hsome
    cases hsome
    rfl
  · rename_i hnone
    rw [h] at hnone
    cases hnone

/-- A quote that opens no literal is passed alone. -/
theorem dropTrailingCommas_unclosed {t : Text} (h : literal? t = none) :
    dropTrailingCommas (CodePoint.quote :: t) = CodePoint.quote :: dropTrailingCommas t := by
  rw [dropTrailingCommas, if_pos rfl]
  split
  · rename_i hsome
    rw [h] at hsome
    cases hsome
  · rfl

/-- A comma in front of the end of a container is taken away. -/
theorem dropTrailingCommas_extra {t : Text} (h : closesContainer t = true) :
    dropTrailingCommas (CodePoint.ofChar ',' :: t) = dropTrailingCommas t := by
  rw [dropTrailingCommas, if_neg (by decide), if_pos ⟨rfl, h⟩]

end Jsonc

end ModuleBuild
