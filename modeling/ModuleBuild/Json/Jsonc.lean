/-
  ModuleBuild.Json.Jsonc
  ──────────────────────
  **DOCUMENTS WITH COMMENTS.**

  Configuration files may hold line and block comments, and a comma after the
  last item of a container.  Comments are removed first, with their line
  breaks kept; then the extra commas; what is left, trimmed, is a document,
  and nothing left is null.

  Main results:
    * `stripComments_sublist` — nothing is added;
    * `literal_append` — a literal and what follows it are the text.
-/
import ModuleBuild.Json.Decode
import ModuleBuild.Text.Blank

namespace ModuleBuild

namespace Jsonc

/-! ## §1. Comments. -/

/-- Where the scan for comments stands. -/
inductive Mode
  | code
  | string
  /-- After a backslash in a string. -/
  | escape
  /-- In a line comment. -/
  | line
  /-- On the star that opened a block comment. -/
  | opening
  /-- In a block comment. -/
  | block
  /-- On the slash that closes a block comment. -/
  | closing
  deriving DecidableEq

/-- The mode after a code point, and whether the code point is kept. -/
def advance (mode : Mode) (c : CodePoint) (next : Option CodePoint) : Mode × Bool :=
  match mode with
  | .code =>
    if c = CodePoint.quote then (.string, true)
    else if c = CodePoint.slash ∧ next = some CodePoint.slash then (.line, false)
    else if c = CodePoint.slash ∧ next = some (CodePoint.ofChar '*') then (.opening, false)
    else (.code, true)
  | .string =>
    if c = CodePoint.backslash then (.escape, true)
    else if c = CodePoint.quote then (.code, true)
    else (.string, true)
  | .escape => (.string, true)
  | .line => if c = CodePoint.lineFeed then (.code, true) else (.line, false)
  | .opening => (.block, false)
  | .block =>
    if c = CodePoint.ofChar '*' ∧ next = some CodePoint.slash then (.closing, false)
    else (.block, c = CodePoint.lineFeed)
  | .closing => (.code, false)

/-- The text without its comments, scanned from a mode. -/
def stripFrom (mode : Mode) : Text → Text
  | [] => []
  | c :: rest =>
    let s := advance mode c rest.head?
    if s.2 then c :: stripFrom s.1 rest else stripFrom s.1 rest

/-- The text without its comments. -/
def stripComments (t : Text) : Text := stripFrom .code t

theorem stripFrom_sublist (mode : Mode) (t : Text) : (stripFrom mode t).Sublist t := by
  induction t generalizing mode with
  | nil => exact .slnil
  | cons c rest ih =>
    simp only [stripFrom]
    split
    · exact (ih _).cons_cons c
    · exact (ih _).cons c

/-- Nothing is added. -/
theorem stripComments_sublist (t : Text) : (stripComments t).Sublist t := stripFrom_sublist _ t

/-! ## §2. Trailing commas. -/

/-- The rest of a string literal after its opening quote, up to and with the closing quote, and
what follows it.  A backslash takes the code point after it along, which must not be a line
feed. -/
def literal? : Text → Option (Text × Text)
  | [] => none
  | c :: rest =>
    if c = CodePoint.quote then some ([c], rest)
    else if c = CodePoint.backslash then
      match rest with
      | [] => none
      | e :: rest' =>
        if e = CodePoint.lineFeed then none
        else (literal? rest').map fun p => (c :: e :: p.1, p.2)
    else (literal? rest).map fun p => (c :: p.1, p.2)

theorem literal_append {t body rest : Text} (h : literal? t = some (body, rest)) :
    body ++ rest = t := by
  fun_induction literal? t generalizing body with
  | case1 => cases h
  | case2 => cases h; rfl
  | case3 => cases h
  | case4 => cases h
  | case5 e rest' _ _ ih =>
    obtain ⟨p, hp, he⟩ := Option.map_eq_some_iff.1 h
    cases he
    simp [ih hp]
  | case6 c rest _ _ ih =>
    obtain ⟨p, hp, he⟩ := Option.map_eq_some_iff.1 h
    cases he
    simp [ih hp]

theorem literal_length {t body rest : Text} (h : literal? t = some (body, rest)) :
    rest.length ≤ t.length := by
  rw [← literal_append h]
  simp

/-- Whether a text, its blanks skipped, closes a container. -/
def closesContainer (t : Text) : Bool :=
  match Text.trimStart t with
  | [] => false
  | c :: _ => c = CodePoint.closeBrace || c = CodePoint.ofChar ']'

/-- The text without the commas, outside string literals, that stand before the end of a
container. -/
def dropTrailingCommas (t : Text) : Text :=
  match t with
  | [] => []
  | c :: rest =>
    if c = CodePoint.quote then
      match hl : literal? rest with
      | some (body, rest') =>
        have := literal_length hl
        c :: body ++ dropTrailingCommas rest'
      | none => c :: dropTrailingCommas rest
    else if c = CodePoint.ofChar ',' ∧ closesContainer rest then dropTrailingCommas rest
    else c :: dropTrailingCommas rest
  termination_by t.length
  decreasing_by all_goals (simp only [List.length_cons] at *; omega)

/-! ## §3. Documents. -/

/-- The text that is left for the reader of plain documents. -/
def clean (t : Text) : Text := Text.trim (dropTrailingCommas (stripComments t))

/-- The document that a text with comments writes; nothing but comments is null. -/
def decode (t : Text) : Except Json.DecodeFault Json :=
  let cleaned := clean t
  if cleaned.isEmpty then .ok .null else Json.decode cleaned

end Jsonc

end ModuleBuild
