/-
  ModuleBuild.Log.Moment
  ──────────────────────
  **DATES IN LOG LINES.**

  A moment is a date and a time of day, known to the second.  A layout puts
  its parts into text: a percent sign and a letter stand for a part, two
  percent signs for one, and everything else for itself.

  Main results:
    * `format_nil` — a layout without fields says nothing of the moment;
    * `format_standard` — the layout of log files, at one moment.
-/
import ModuleBuild.Text.Numeral

namespace ModuleBuild

/-- A date and a time of day. -/
structure Moment where
  year : Nat
  month : Nat
  day : Nat
  hour : Nat
  minute : Nat
  second : Nat
  deriving DecidableEq

namespace Moment

/-- The layout of dates in a log file. -/
def fileLayout : Text := "%Y-%m-%dT%H:%M:%S"

/-- The layout of dates where none is given: with a fraction, which is always zero. -/
def plainLayout : Text := "%Y-%m-%d %H:%M:%S,000"

/-- What a letter stands for. -/
def part (m : Moment) (letter : CodePoint) : Text :=
  let two (n : Nat) : Text := Text.inBase 10 2 n
  let is (c : Char) : Bool := letter = CodePoint.ofChar c
  if is 'Y' then Text.ofNat m.year
  else if is 'y' then two (m.year % 100)
  else if is 'm' then two m.month
  else if is 'd' then two m.day
  else if is 'H' then two m.hour
  else if is 'M' then two m.minute
  else if is 'S' then two m.second
  else if is 'F' then Text.joinWith "-" [Text.ofNat m.year, two m.month, two m.day]
  else if is 'T' then Text.joinWith ":" [two m.hour, two m.minute, two m.second]
  else if is 'R' then Text.joinWith ":" [two m.hour, two m.minute]
  else if is 'n' then "\n"
  else if is 't' then "\t"
  else if is '%' then "%"
  else [CodePoint.ofChar '%', letter]

/-- A moment in a layout. -/
def format (m : Moment) : Text → Text
  | [] => []
  | [c] => [c]
  | c :: letter :: rest =>
    if c = CodePoint.ofChar '%' then m.part letter ++ format m rest
    else c :: format m (letter :: rest)

/-- A moment in a layout, which must hold no NUL. -/
def format? (m : Moment) (layout : Text) : Option Text :=
  if layout.any (·.code = 0) then none else some (m.format layout)

theorem format_nil (m : Moment) : m.format [] = [] := rfl

theorem format_standard :
    format ⟨2000, 1, 2, 3, 4, 5⟩ fileLayout = ("2000-01-02T03:04:05" : Text) := by decide

end Moment

end ModuleBuild
