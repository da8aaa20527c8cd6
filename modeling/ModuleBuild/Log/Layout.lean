/-
  ModuleBuild.Log.Layout
  ──────────────────────
  **HOW A RECORD BECOMES A LINE.**

  A layout is a text with fields: `%(message)s` stands for the message, and
  the time, the level and the part of the program have fields of their own.
  Between the parentheses and the letter a field may have flags, a width and
  a precision.  A percent sign of the text is written twice.

  A layout that names no field at all is refused when the log is started.
  One that is broken elsewhere, or asks for what is not there, makes no line
  of any record.

  Main results:
    * `pieces?_of_not_mem` — a text without a percent sign stands for itself;
    * `fill_console` — a line of the console, at one record.
-/
import ModuleBuild.Log.Field
import ModuleBuild.Log.Record
import ModuleBuild.Text.Word

namespace ModuleBuild

namespace Layout

/-! ## §1. Layouts in use. -/

/-- The percent sign, which starts a field. -/
def mark : CodePoint := CodePoint.ofChar '%'

/-- The layout of lines on the console. -/
def console : Text := "%(levelname)s | %(message)s"

/-- The layout of lines in a log file. -/
def file : Text := "[%(asctime)s] - %(levelname)s - %(name)s - %(message)s"

/-- The layout of lines where an empty one is given. -/
def plain : Text := "%(message)s"

/-- A layout as it is used. -/
def orPlain (layout : Text) : Text := if layout = [] then plain else layout

/-! ## §2. Reading a layout. -/

/-- A piece of a layout. -/
inductive Piece
  | literal (c : CodePoint)
  | field (name : Text) (form : FieldForm)
  deriving DecidableEq

/-- What a letter asks for. -/
def mannerOf? (letter : CodePoint) : Option Manner :=
  let is (s : String) : Bool := s.toList.any fun c => letter = CodePoint.ofChar c
  if is "s" then some .plain
  else if is "r" then some .quoted
  else if is "a" then some .asciiQuoted
  else if is "c" then some .character
  else if is "diu" then some .decimal
  else if is "o" then some .octal
  else if is "xX" then some (.hexadecimal (is "X"))
  else if is "fF" then some .fixed
  else if is "eE" then some (.scientific (is "E"))
  else if is "gG" then some (.general (is "G"))
  else none

/-- The name between the parentheses of a field, which may hold pairs of them, and what follows the
last; `depth` parentheses are open inside. -/
def nameIn? (depth : Nat) : Text → Option (Text × Text)
  | [] => none
  | c :: rest =>
    if c = CodePoint.ofChar ')' then
      match depth with
      | 0 => some ([], rest)
      | outer + 1 => (nameIn? outer rest).map fun r => (c :: r.1, r.2)
    else
      (nameIn? (if c = CodePoint.ofChar '(' then depth + 1 else depth) rest).map fun r =>
        (c :: r.1, r.2)

/-- Whether a code point is a flag of a field. -/
def isFlag (c : CodePoint) : Bool := "#0+ -".toList.any fun f => c = CodePoint.ofChar f

/-- Whether a code point is a letter in front of the last one, which says nothing. -/
def isLengthLetter (c : CodePoint) : Bool := "hlL".toList.any fun l => c = CodePoint.ofChar l

/-- The greatest width and precision. -/
def maxExtent : Nat := 0x7FFFFFFF

/-- The number that a text starts with, zero if there is none, and what follows it. -/
def extent? (t : Text) : Option (Nat × Text) :=
  let n := Text.valueOfDigits (t.takeWhile CodePoint.isAsciiDigit)
  if n ≤ maxExtent then some (n, t.dropWhile CodePoint.isAsciiDigit) else none

/-- The precision that a text starts with, if there is one, and what follows it. -/
def precision? (t : Text) : Option (Option Nat × Text) :=
  if t.head? = some CodePoint.dot then (extent? t.tail).map fun r => (some r.1, r.2)
  else some (none, t)

/-- The form that a text starts with, and what follows its letter. -/
def form? (t : Text) : Option (FieldForm × Text) :=
  let flags := t.takeWhile isFlag
  let has (c : Char) : Bool := flags.contains (CodePoint.ofChar c)
  match extent? (t.dropWhile isFlag) with
  | none => none
  | some (width, t) =>
    match precision? t with
    | none => none
    | some (precision, t) =>
      let t := if (t.head?.map isLengthLetter).getD false then t.tail else t
      match t with
      | [] => none
      | letter :: rest =>
        (mannerOf? letter).map fun manner =>
          (⟨manner, has '-', has '+', has ' ', has '#', has '0', width, precision⟩, rest)

/-- The piece behind a percent sign, and what follows it. -/
def pieceAfter? : Text → Option (Piece × Text)
  | [] => none
  | c :: rest =>
    if c = mark then some (.literal mark, rest)
    else if c = CodePoint.ofChar '(' then
      match nameIn? 0 rest with
      | none => none
      | some (name, rest) => (form? rest).map fun r => (.field name r.1, r.2)
    else none

/-- The pieces of a text; `budget` bounds their number. -/
def piecesFrom? : Nat → Text → Option (List Piece)
  | _, [] => some []
  | 0, _ => none
  | budget + 1, c :: rest =>
    if c = mark then
      match pieceAfter? rest with
      | none => none
      | some (piece, rest) => (piecesFrom? budget rest).map (piece :: ·)
    else (piecesFrom? budget rest).map (.literal c :: ·)

/-- The pieces of a layout, each made of one character at least; a broken layout has none. -/
def pieces? (layout : Text) : Option (List Piece) := piecesFrom? layout.length layout

/-- A text without a percent sign stands for itself. -/
theorem pieces?_of_not_mem {layout : Text} (h : mark ∉ layout) :
    pieces? layout = some (layout.map .literal) := by
  unfold pieces?
  induction layout with
  | nil => rfl
  | cons c rest ih =>
    have hc : c ≠ mark := fun e => h (by simp [e])
    simp only [List.length_cons, piecesFrom?, hc, if_false, List.map_cons]
    rw [ih fun hm => h (by simp [hm])]
    rfl

/-! ## §3. Layouts that name a field. -/

/-- A text without the number that it starts with, in the digits of any script; a star may stand
for the number. -/
def afterNumber (t : Text) : Text :=
  match t with
  | [] => []
  | c :: rest =>
    if c = CodePoint.ofChar '*' then rest else t.dropWhile fun d => d.decimalValue?.isSome

/-- Whether a field stands behind a percent sign: a name of letters between parentheses, and a
letter in front of which flags, a width and a precision may stand. -/
def startsField (t : Text) : Bool :=
  let name := t.tail.takeWhile CodePoint.isWord
  let behind := t.tail.dropWhile CodePoint.isWord
  let rest := afterNumber (behind.tail.dropWhile isFlag)
  let rest :=
    if rest.head? = some CodePoint.dot && (afterNumber rest.tail).length < rest.tail.length then
      afterNumber rest.tail
    else rest
  t.head? = some (CodePoint.ofChar '(') && name ≠ [] &&
    behind.head? = some (CodePoint.ofChar ')') &&
    match rest with
    | [] => false
    | letter :: _ =>
      "diouxefgcrsaDIOUXEFGCRSA%".toList.any fun c => letter = CodePoint.ofChar c

/-- Whether a layout names a field. -/
def namesField : Text → Bool
  | [] => false
  | c :: rest => (c = mark && startsField rest) || namesField rest

/-! ## §4. Filling a layout. -/

/-- What a field stands for; `time` is how the time is written, if it can be.  The program has one
thread, and attaches no arguments and no failures to its records. -/
def valueOf? (time : Option Text) (r : Record) (name : Text) : Option FieldValue :=
  if name = "message" ∨ name = "msg" then some (.text r.message)
  else if name = "levelname" then some (.text r.level.name)
  else if name = "levelno" then some (.number r.level.number)
  else if name = "name" then some (.text r.loggerName)
  else if name = "asctime" then time.map .text
  else if name = "threadName" then some (.text "MainThread")
  else if name = "processName" then some (.text "MainProcess")
  else if name = "args" ∨ name = "exc_info" ∨ name = "exc_text" ∨ name = "stack_info" then
    some .nothing
  else none

/-- The text of a piece. -/
def Piece.write? (time : Option Text) (r : Record) : Piece → Option Text
  | .literal c => some [c]
  | .field name form => (valueOf? time r name).bind form.write?

/-- The line of a record in a layout. -/
def fill? (layout : Text) (time : Option Text) (r : Record) : Option Text := do
  let pieces ← pieces? layout
  let texts ← pieces.mapM (Piece.write? time r)
  return Text.join texts

theorem fill_console :
    fill? console none ⟨.info, [], "ready"⟩ = some ("INFO | ready" : Text) := by
  decide

end Layout

end ModuleBuild
