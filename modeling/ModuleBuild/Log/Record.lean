/-
  ModuleBuild.Log.Record
  ──────────────────────
  **LOG RECORDS.**

  A record is a message with a level and the name of the part of the program
  that wrote it.  Levels have numbers, so that a sink can ask for the records
  from a level upwards.

  Main results:
    * `ofText_name` — the name of a level is read as that level.
-/
import ModuleBuild.Text.Blank
import ModuleBuild.Text.Basic

namespace ModuleBuild

/-- How serious a record is. -/
inductive Level
  | debug
  | info
  | warning
  | error
  | critical
  deriving DecidableEq

namespace Level

/-- The number of a level; more serious is greater. -/
def number : Level → Nat
  | .debug => 10
  | .info => 20
  | .warning => 30
  | .error => 40
  | .critical => 50

/-- The name of a level. -/
def name : Level → Text
  | .debug => "DEBUG"
  | .info => "INFO"
  | .warning => "WARNING"
  | .error => "ERROR"
  | .critical => "CRITICAL"

/-- A letter as a capital: those of ASCII, and the dotless i, whose capital is an ASCII letter. -/
def capital (c : CodePoint) : CodePoint :=
  if c.code = 0x131 then CodePoint.ofChar 'I' else c.capital

/-- The level that a text names, in letters of either case; anything else names `info`. -/
def ofText (t : Text) : Level :=
  let word := (Text.trim t).map capital
  if word = "DEBUG" then .debug
  else if word = "WARNING" ∨ word = "WARN" then .warning
  else if word = "ERROR" then .error
  else if word = "CRITICAL" then .critical
  else .info

theorem ofText_name (l : Level) : ofText l.name = l := by
  cases l <;> decide

end Level

/-- A message, how serious it is, and which part of the program wrote it. -/
structure Record where
  level : Level
  logger : Text
  message : Text
  deriving DecidableEq

/-- The name of the part that wrote a record; without one it is the root of all parts. -/
def Record.loggerName (r : Record) : Text := if r.logger = [] then "root" else r.logger

end ModuleBuild
