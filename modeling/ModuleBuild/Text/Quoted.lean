/-
  ModuleBuild.Text.Quoted
  ───────────────────────
  **TEXT IN QUOTES.**

  Messages show a path or a key between single quotes, or between double
  quotes when it holds a single quote and no double one.  The quote in use
  and the backslash are escaped; tab, line feed and carriage return have
  letters; all else that is not printable is shown by its number.

  Main results:
    * `quoted_eq` — the quotes stand at both ends;
    * `quoteFor_of_not_mem` — without a single quote inside, single quotes are used.
-/
import ModuleBuild.Text.Numeral
import ModuleBuild.Text.Printable

namespace ModuleBuild

namespace Text

/-- The quote that a text is shown in. -/
def quoteFor (t : Text) : CodePoint :=
  if t.contains CodePoint.apostrophe && !t.contains CodePoint.quote then CodePoint.quote
  else CodePoint.apostrophe

/-- A code point shown by its number. -/
def showNumber (c : CodePoint) : Text :=
  if c.code < 0x100 then join ["\\x", hex 2 c.code]
  else if c.code < 0x10000 then join ["\\u", hex 4 c.code]
  else join ["\\U", hex 8 c.code]

/-- One code point as it is shown between quotes. -/
def showOne (quote c : CodePoint) : Text :=
  if c = quote ∨ c = CodePoint.backslash then [CodePoint.backslash, c]
  else if c.code = 0x09 then "\\t"
  else if c = CodePoint.lineFeed then "\\n"
  else if c = CodePoint.carriageReturn then "\\r"
  else if c.isPrintable then [c]
  else showNumber c

/-- A text between quotes, with what cannot stand there escaped. -/
def quoted (t : Text) : Text :=
  let q := quoteFor t
  q :: t.flatMap (showOne q) ++ [q]

/-- A text with what is not ASCII shown by its number. -/
def asciiOnly (t : Text) : Text := t.flatMap fun c => if c.code < 0x80 then [c] else showNumber c

theorem quoted_eq (t : Text) :
    quoted t = [quoteFor t] ++ t.flatMap (showOne (quoteFor t)) ++ [quoteFor t] := rfl

theorem quoteFor_of_not_mem {t : Text} (h : CodePoint.apostrophe ∉ t) :
    quoteFor t = CodePoint.apostrophe := by
  simp [quoteFor, h]

end Text

end ModuleBuild
