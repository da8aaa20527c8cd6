/-
  ModuleBuild.Text.Lines
  ──────────────────────
  **LINES, WITH THEIR OWN TERMINATORS.**

  A text is cut after each line terminator: LF, CR, CR LF (one terminator),
  VT, FF, the separators U+001C to U+001E, NEL, and the two Unicode
  separators.  Each piece keeps its terminator, so nothing is lost; the body
  of a piece is the piece without the CRs and LFs at its end.

  Main results:
    * `join_lines` — the pieces, one after another, are the text;
    * `ne_nil_of_mem_lines` — no piece is empty.
-/
import ModuleBuild.Text.Basic

namespace ModuleBuild

namespace CodePoint

/-- Whether a line ends after this code point. -/
def endsLine (c : CodePoint) : Bool :=
  (0x0A ≤ c.code && c.code ≤ 0x0D) || (0x1C ≤ c.code && c.code ≤ 0x1E) ||
  c.code = 0x85 || c.code = 0x2028 || c.code = 0x2029

/-- Whether this is one of the two code points that are cut from the end of a line's body. -/
def isNewline (c : CodePoint) : Bool := c = carriageReturn || c = lineFeed

end CodePoint

namespace Text

/-- The lines with a code point put in front of the first. -/
def consToFirst (c : CodePoint) : List Text → List Text
  | [] => [[c]]
  | line :: lines => (c :: line) :: lines

/-- The pieces of a text, each with the terminator that ends it; the last may have none. -/
def lines : Text → List Text
  | [] => []
  | c :: rest =>
    if c.endsLine && !(c = CodePoint.carriageReturn && rest.head? = some CodePoint.lineFeed) then
      [c] :: lines rest
    else
      consToFirst c (lines rest)

/-- The text with every CR LF and every other CR made a single LF. -/
def unifyNewlines : Text → Text
  | [] => []
  | c :: rest =>
    if c = CodePoint.carriageReturn then
      if rest.head? = some CodePoint.lineFeed then unifyNewlines rest
      else CodePoint.lineFeed :: unifyNewlines rest
    else c :: unifyNewlines rest

theorem unifyNewlines_of_not_mem {t : Text} (h : CodePoint.carriageReturn ∉ t) :
    unifyNewlines t = t := by
  induction t with
  | nil => rfl
  | cons c rest ih =>
    have hc : c ≠ CodePoint.carriageReturn := fun e => h (by simp [e])
    simp [unifyNewlines, hc, ih fun hm => h (by simp [hm])]

/-- A line without the CRs and LFs at its end. -/
def lineBody (line : Text) : Text := line.dropEndWhile CodePoint.isNewline

theorem join_consToFirst (c : CodePoint) (ls : List Text) :
    join (consToFirst c ls) = c :: join ls := by
  cases ls <;> rfl

/-- The lines make up the text. -/
theorem join_lines (t : Text) : join (lines t) = t := by
  induction t with
  | nil => rfl
  | cons c rest ih =>
    unfold lines
    split
    · simp [ih]
    · rw [join_consToFirst, ih]

theorem ne_nil_of_mem_lines {t line : Text} (h : line ∈ lines t) : line ≠ [] := by
  induction t generalizing line with
  | nil => simp [lines] at h
  | cons c rest ih =>
    unfold lines at h
    split at h
    · rcases List.mem_cons.1 h with rfl | h
      · simp
      · exact ih h
    · cases hl : lines rest with
      | nil => simp_all [consToFirst]
      | cons l ls =>
        rw [hl] at h
        rcases List.mem_cons.1 h with rfl | h
        · simp
        · exact ih (by simp [hl, h])

end Text

end ModuleBuild
