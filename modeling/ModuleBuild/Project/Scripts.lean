/-
  ModuleBuild.Project.Scripts
  ───────────────────────────
  **SCRIPTS IN THE MANIFEST.**

  Two things are recorded as scripts: how to start the program, and that the
  build runs by itself.  Which scripts run the build is the user's choice,
  and that the user has chosen is recorded whatever the choice was.

  Main results:
    * `askedUser_withChoice` — recording a choice records that there was one;
    * `ofAnswer_letter` — the letter of a choice names that choice.
-/
import ModuleBuild.Project.Manifest
import ModuleBuild.Text.Lower

namespace ModuleBuild

/-! ## §1. The start script. -/

/-- The command that runs a module. -/
def runCommand : Text := "node "

/-- The command that starts the program: its entry module lies at `entry` in the output
directory. -/
def startScript (outDir entry : Text) : Text :=
  runCommand ++ Path.normalize (Path.join (Path.toForwardSlashes outDir) entry)

/-! ## §2. The automation choice. -/

/-- Which scripts run the build. -/
inductive Choice
  | all
  | prestart
  | buildOnly
  | nothing
  | invalid
  deriving DecidableEq

namespace Choice

/-- The name of a choice. -/
def letter : Choice → Text
  | .all => "y"
  | .prestart => "s"
  | .buildOnly => "b"
  | .nothing => "n"
  | .invalid => "invalid"

/-- The choice that an answer makes, blanks and letter case aside; no answer is the default. -/
def ofAnswer (answer : Option Text) : Choice :=
  let a := Text.lower (Text.trim (answer.getD []))
  if a = [] then .buildOnly
  else if a = "y" then .all
  else if a = "s" then .prestart
  else if a = "b" then .buildOnly
  else if a = "n" then .nothing
  else .invalid

theorem ofAnswer_letter (c : Choice) : ofAnswer (some c.letter) = c := by
  cases c <;> decide

/-- The scripts that a choice sets. -/
def scripts : Choice → List Text
  | .all => ["prestart", "build"]
  | .prestart => ["prestart"]
  | .buildOnly => ["build"]
  | .nothing => []
  | .invalid => []

end Choice

/-- The command that runs the build. -/
def automationCommand : Text := "npx typebuild"

namespace Manifest

/-- The manifest with the start script set. -/
def withStart (m : Manifest) (command : Text) : Manifest :=
  m.setIn scriptsKey "start" (.string command)

/-- The manifest with the scripts of a choice set, and with the note that there was one. -/
def withChoice (m : Manifest) (c : Choice) : Manifest :=
  (c.scripts.foldl (fun m name => m.setIn scriptsKey name (.string automationCommand)) m).setIn
    ownKey "askedUser" (.bool true)

/-- Recording a choice records that there was one. -/
theorem askedUser_withChoice (m : Manifest) (c : Choice) : (m.withChoice c).askedUser = true := by
  simp [askedUser, withChoice, sectionOf_setIn_self, Json.isTruthy]

/-! ## §3. Recording. -/

/-- The part of the program that logs what is recorded. -/
def scriptsLogger : Text := "typebuild.core.pipeline.stages.manifest_updater"

/-- Records the entry module; the result is the start script. -/
def recordEntry (m : Manifest) (outDir entry : Text) : Action (Manifest × Text) := do
  let command := startScript outDir entry
  Action.log .info scriptsLogger
    (Text.join ["Found index file: ", command.drop runCommand.length])
  return (m.withStart command, command)

/-- What is logged about a choice. -/
def choiceRecord (c : Choice) : Level × Text :=
  match c with
  | .invalid => (.warning, "Invalid choice! No scripts added to package.json!")
  | .nothing => (.warning, "No scripts added to package.json!")
  | _ =>
    (.info, Text.join ["Added ", Text.joinWith " and " c.scripts, " script(s) to package.json!"])

/-- Records the answer to the automation question; the result is the choice it makes. -/
def recordChoice (m : Manifest) (answer : Option Text) : Action (Manifest × Choice) := do
  let c := Choice.ofAnswer answer
  let r := choiceRecord c
  Action.log r.1 scriptsLogger r.2
  return (m.withChoice c, c)

/-- Records the entry module in a transaction of its own. -/
def persistEntry (path outDir entry : Text) : Action Text :=
  transaction path (recordEntry · outDir entry)

/-- Records the answer to the automation question in a transaction of its own. -/
def persistChoice (path : Text) (answer : Option Text) : Action Choice :=
  transaction path (recordChoice · answer)

end Manifest

end ModuleBuild
