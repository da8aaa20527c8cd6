/-
  ModuleBuild.Text.Lower
  ──────────────────────
  **TEXT IN SMALL LETTERS.**

  Names and answers are compared in small letters.  Each code point is mapped
  by itself, with two exceptions of the standard: the dotted capital I becomes
  an i and a combining dot, and a capital sigma at the end of a word becomes
  the final form.

  Main results:
    * `lowerAfter_of_ascii` — in ASCII the mapping is letter by letter.
-/
import ModuleBuild.Text.SmallLetter

namespace ModuleBuild

namespace CodePoint

/-- The capital sigma. -/
def capitalSigma : CodePoint := ⟨0x3A3, by decide⟩

/-- The capital I with a dot. -/
def dottedCapitalI : CodePoint := ⟨0x130, by decide⟩

end CodePoint

namespace Text

/-- Whether the nearest code point that is not passed over is a letter with case. -/
def nearestIsCased (t : Text) : Bool :=
  match t.dropWhile (CodePoint.inRanges CodePoint.caseIgnorableRanges) with
  | [] => false
  | c :: _ => c.inRanges CodePoint.casedRanges

/-- The small form of one code point, given what stands before it (last first) and after it. -/
def lowerOne (before : Text) (c : CodePoint) (after : Text) : Text :=
  if c = CodePoint.capitalSigma then
    if nearestIsCased before && !nearestIsCased after then [CodePoint.ofNat 0x3C2]
    else [CodePoint.ofNat 0x3C3]
  else if c = CodePoint.dottedCapitalI then [CodePoint.ofChar 'i', CodePoint.ofNat 0x307]
  else [c.toSmall]

/-- The small form of a text that follows `before`, which is held last first. -/
def lowerAfter (before : Text) : Text → Text
  | [] => []
  | c :: rest => lowerOne before c rest ++ lowerAfter (c :: before) rest

/-- The text in small letters. -/
def lower (t : Text) : Text := lowerAfter [] t

@[simp] theorem lower_nil : lower [] = [] := rfl

theorem lowerAfter_cons_ascii {before rest : Text} {c : CodePoint} (h : c.code < 0x80) :
    lowerAfter before (c :: rest) = c.toSmall :: lowerAfter (c :: before) rest := by
  have h1 : c ≠ CodePoint.capitalSigma := by rintro rfl; exact absurd h (by decide)
  have h2 : c ≠ CodePoint.dottedCapitalI := by rintro rfl; exact absurd h (by decide)
  simp [lowerAfter, lowerOne, h1, h2]

/-- In ASCII what stands before does not matter. -/
theorem lowerAfter_of_ascii {before t : Text} (h : ∀ c ∈ t, c.code < 0x80) :
    lowerAfter before t = t.map CodePoint.toSmall := by
  induction t generalizing before with
  | nil => rfl
  | cons c rest ih =>
    rw [lowerAfter_cons_ascii (h c (by simp)), ih fun d hd => h d (by simp [hd])]
    rfl

end Text

end ModuleBuild
