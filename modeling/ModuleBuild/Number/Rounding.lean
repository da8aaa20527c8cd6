/-
  ModuleBuild.Number.Rounding
  ───────────────────────────
  **ROUNDING A QUOTIENT TO THE NEAREST INTEGER.**

  One rule serves the doubles, their decimal text and the progress bar: the
  quotient of two natural numbers goes to the nearest integer, and a quotient
  halfway between two goes to the even one.

  Main results:
    * `roundHalfEven_mul` — an exact quotient is kept;
    * `roundHalfEven_le`, `le_roundHalfEven` — the result is next to the quotient.
-/

namespace ModuleBuild

/-- The integer nearest to `num / den`, the even one of two at the same distance. -/
def roundHalfEven (num den : Nat) : Nat :=
  let q := num / den
  let r := num % den
  if den < 2 * r ∨ (2 * r = den ∧ q % 2 = 1) then q + 1 else q

theorem le_roundHalfEven (num den : Nat) : num / den ≤ roundHalfEven num den := by
  unfold roundHalfEven
  dsimp only
  split <;> omega

theorem roundHalfEven_le (num den : Nat) : roundHalfEven num den ≤ num / den + 1 := by
  unfold roundHalfEven
  dsimp only
  split <;> omega

theorem roundHalfEven_mul (q : Nat) {den : Nat} (h : 0 < den) :
    roundHalfEven (q * den) den = q := by
  simp [roundHalfEven, h]
  omega

/-- An exact half goes to the even neighbour: 1/2 down to 0, 3/2 up to 2. -/
theorem roundHalfEven_halves : roundHalfEven 1 2 = 0 ∧ roundHalfEven 3 2 = 2 := by decide

end ModuleBuild
