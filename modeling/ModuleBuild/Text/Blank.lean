/-
  ModuleBuild.Text.Blank
  ──────────────────────
  **BLANKS AND TRIMMING.**

  A blank is a code point of Unicode's White_Space property or one of the
  four information separators U+001C to U+001F.  Trimming removes blanks at
  both ends; import lines and trailing commas skip the same class.  Around a
  number white space may stand, but no separator.

  Main results:
    * `isBlank_of_isWhitespace` — every blank of ASCII is one;
    * `isBlank_head_trimStart` — what trimming leaves starts with no blank.
-/
import ModuleBuild.Text.Basic

namespace ModuleBuild

namespace CodePoint

/-- A code point of the White_Space property. -/
def isWhiteSpace (c : CodePoint) : Bool :=
  (0x09 ≤ c.code && c.code ≤ 0x0D) || c.code = 0x20 ||
  c.code = 0x85 || c.code = 0xA0 || c.code = 0x1680 ||
  (0x2000 ≤ c.code && c.code ≤ 0x200A) || c.code = 0x2028 || c.code = 0x2029 ||
  c.code = 0x202F || c.code = 0x205F || c.code = 0x3000

/-- One of the information separators. -/
def isSeparator (c : CodePoint) : Bool := 0x1C ≤ c.code && c.code ≤ 0x1F

/-- A code point of the White_Space property, or an information separator. -/
def isBlank (c : CodePoint) : Bool := c.isWhiteSpace || c.isSeparator

theorem isBlank_of_isWhitespace {c : Char} (h : c.isWhitespace = true) :
    isBlank (ofChar c) = true := by
  simp only [Char.isWhitespace, Bool.or_eq_true, decide_eq_true_eq] at h
  rcases h with ((h | h) | h) | h <;> subst h <;> decide

end CodePoint

namespace Text

/-- The text without the blanks at its start. -/
def trimStart (t : Text) : Text := t.dropWhile CodePoint.isBlank

/-- The text without the blanks at its end. -/
def trimEnd (t : Text) : Text := t.dropEndWhile CodePoint.isBlank

/-- The text without the blanks at its ends. -/
def trim (t : Text) : Text := trimEnd (trimStart t)

/-- A text of blanks only, or an empty one. -/
def isAllBlank (t : Text) : Bool := t.all CodePoint.isBlank

@[simp] theorem trim_nil : trim [] = [] := rfl

/-- Nothing but blanks is cut at the start: what is left starts with no blank. -/
theorem isBlank_head_trimStart {c : CodePoint} {rest : Text} {t : Text}
    (h : trimStart t = c :: rest) : c.isBlank = false := by
  induction t with
  | nil => simp [trimStart] at h
  | cons a as ih =>
    unfold trimStart at h ih
    by_cases ha : a.isBlank = true
    · rw [List.dropWhile_cons_of_pos ha] at h
      exact ih h
    · rw [List.dropWhile_cons_of_neg ha] at h
      cases h
      simpa using ha

end Text

end ModuleBuild
