/-
  ModuleBuild.Json.Render
  ───────────────────────
  **WRITING A DOCUMENT.**

  A document is written with each item and member on a line of its own, two
  blanks deeper than its container.  Strings keep every code point but the
  quote, the backslash and the control characters; an empty container has no
  lines.  Messages show a value on one line, in a notation of its own.

  Main results:
    * `render_scalar_null`, `renderString_eq` — the forms of the leaves.
-/
import ModuleBuild.Json.Value
import ModuleBuild.Number.Shortest
import ModuleBuild.Text.Quoted

namespace ModuleBuild

namespace Json

/-! ## §1. The written form. -/

/-- One code point inside a written string. -/
def escapeOne (c : CodePoint) : Text :=
  if c = CodePoint.quote ∨ c = CodePoint.backslash then [CodePoint.backslash, c]
  else if c = CodePoint.lineFeed then "\\n"
  else if c = CodePoint.carriageReturn then "\\r"
  else if c.code = 0x09 then "\\t"
  else if c.code = 0x0C then "\\f"
  else if c.code = 0x08 then "\\b"
  else if c.code < 0x20 then Text.join ["\\u", Text.hex 4 c.code]
  else [c]

/-- A string in double quotes. -/
def renderString (t : Text) : Text :=
  [CodePoint.quote] ++ t.flatMap escapeOne ++ [CodePoint.quote]

theorem renderString_eq (t : Text) :
    renderString t = [CodePoint.quote] ++ t.flatMap escapeOne ++ [CodePoint.quote] := rfl

/-- Doubles in documents: the words for the values that have no digits are those of documents. -/
def doubleLayout : Binary64.Layout :=
  { Binary64.plainLayout with infinity := "Infinity", nan := "NaN" }

/-- A new line at a depth. -/
def newLine (depth : Nat) : Text :=
  CodePoint.lineFeed :: List.replicate (2 * depth) (CodePoint.ofChar ' ')

mutual

/-- The written form of a value at a depth. -/
def renderAt (depth : Nat) : Json → Text
  | .null => "null"
  | .bool true => "true"
  | .bool false => "false"
  | .int i => Text.ofInt i
  | .double x => x.toText doubleLayout
  | .string t => renderString t
  | .array [] => "[]"
  | .array (v :: vs) =>
    Text.join ["[", newLine (depth + 1), renderAt (depth + 1) v, renderItems (depth + 1) vs,
      newLine depth, "]"]
  | .object [] => [CodePoint.openBrace, CodePoint.closeBrace]
  | .object ((k, v) :: ms) =>
    Text.join [[CodePoint.openBrace], newLine (depth + 1), renderString k, ": ",
      renderAt (depth + 1) v, renderMembers (depth + 1) ms, newLine depth,
      [CodePoint.closeBrace]]

/-- The items after the first. -/
def renderItems (depth : Nat) : List Json → Text
  | [] => []
  | v :: vs => Text.join [",", newLine depth, renderAt depth v, renderItems depth vs]

/-- The members after the first. -/
def renderMembers (depth : Nat) : List (Text × Json) → Text
  | [] => []
  | (k, v) :: ms =>
    Text.join [",", newLine depth, renderString k, ": ", renderAt depth v,
      renderMembers depth ms]

end

/-- The written form of a document. -/
def render (v : Json) : Text := renderAt 0 v

theorem render_scalar_null : render .null = "null" := rfl

/-! ## §2. The form in messages. -/

mutual

/-- A value inside another, on one line. -/
def showInner : Json → Text
  | .null => "None"
  | .bool true => "True"
  | .bool false => "False"
  | .int i => Text.ofInt i
  | .double x => x.toText Binary64.plainLayout
  | .string t => Text.quoted t
  | .array [] => "[]"
  | .array (v :: vs) => Text.join ["[", showInner v, showItems vs, "]"]
  | .object [] => [CodePoint.openBrace, CodePoint.closeBrace]
  | .object ((k, v) :: ms) =>
    Text.join [[CodePoint.openBrace], Text.quoted k, ": ", showInner v, showMembers ms,
      [CodePoint.closeBrace]]

/-- The items after the first, on one line. -/
def showItems : List Json → Text
  | [] => []
  | v :: vs => Text.join [", ", showInner v, showItems vs]

/-- The members after the first, on one line. -/
def showMembers : List (Text × Json) → Text
  | [] => []
  | (k, v) :: ms => Text.join [", ", Text.quoted k, ": ", showInner v, showMembers ms]

end

/-- The text that a value stands for where a text is asked for: a string is its own. -/
def plainText : Json → Text
  | .string t => t
  | v => showInner v

end Json

end ModuleBuild
