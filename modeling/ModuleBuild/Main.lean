/-
  ModuleBuild.Main
  ────────────────
  **THE COMMAND LINE.**

  The program proper is a function from an invocation and a file tree to an
  outcome.  What is done here is to ask for the first two and to carry the
  third out.

  The names of the files that make up the project come on the standard input,
  one a line; only these are read, and only what differs in the end is
  written back.  The automation question is therefore never put: an answer
  has to be given as an option.
-/
import ModuleBuild.CommandLine.Crash
import ModuleBuild.FileTree.Difference
import Std.Time.Zoned

namespace ModuleBuild

namespace Surroundings

/-- The value of a variable, as a pair with its name. -/
def namedVariable (name : Text) : IO (Option (Text × Text)) := do
  return (← IO.getEnv (Text.asString name)).map fun value => (name, value)

/-- The directory from which relative paths start. -/
def workingDir : IO Text := do
  return ((← IO.getEnv "PWD").map Text.ofString).getD "/"

/-- The accounts of the system with their homes. -/
def accounts : IO (List (Text × Text)) := do
  let lines ← try IO.FS.lines "/etc/passwd" catch _ => pure #[]
  return lines.toList.filterMap fun line =>
    match Text.split (CodePoint.ofChar ':') (Text.ofString line) with
    | name :: _ :: _ :: _ :: _ :: home :: _ => some (name, home)
    | _ => none

/-- The variables and homes that some words may refer to. -/
def environment (words : List Text) : IO Environment := do
  let names : List Text := "HOME" :: words.flatMap Path.variablesIn
  let bindings ← names.filterMapM namedVariable
  return ⟨bindings, "/", ← accounts⟩

/-- The time by the clock of the system. -/
def time : IO Moment := do
  let t ← Std.Time.PlainDateTime.now
  return ⟨t.year.toInt.toNat, t.month.toNat, t.day.toNat, t.hour.toInt.toNat,
    t.minute.toInt.toNat, t.second.toInt.toNat⟩

/-- A file with its bytes, if it can be read. -/
def readFile (path : Text) : IO (Option (Text × Bytes)) := do
  try return some (path, (← IO.FS.readBinFile (Text.asString path)).toList)
  catch _ => return none

/-- The files that the standard input names. -/
def namedFiles : IO (List (Text × Bytes)) := do
  let input ← IO.getStdin
  if ← input.isTty then return []
  (← input.lines).toList.filterMapM fun line => readFile (Text.ofString line)

/-- Writes a text to a stream. -/
def write (stream : IO.FS.Stream) (t : Text) : IO Unit := do
  stream.write ⟨(Utf8.nameBytes t).toArray⟩
  stream.flush

/-- Writes back what differs between two trees. -/
def carryOut (before after : FileTree) : IO Unit := do
  (FileTree.removed before after).forM fun l =>
    IO.FS.removeFile (Text.asString (FileTree.pathOf l))
  (FileTree.written before after).forM fun f => do
    IO.FS.createDirAll (Text.asString (FileTree.pathOf f.1.dropLast))
    IO.FS.writeBinFile (Text.asString (FileTree.pathOf f.1)) ⟨f.2.toArray⟩

end Surroundings

end ModuleBuild

open ModuleBuild in
/-- Runs the program with some arguments; the time that reading the project takes is told as the
duration of the build. -/
def main (args : List String) : IO UInt32 := do
  let start ← IO.monoMsNow
  let argv := args.map Text.ofString
  let before := FileTree.ofFiles (← Surroundings.workingDir) (← Surroundings.namedFiles)
  let outcome := Crash.supervise
    { argv := argv
      environment := ← Surroundings.environment argv
      terminalOutput := ← (← IO.getStdout).isTty
      terminalInput := false
      input := []
      tools := Toolchain.builtIn
      time := ← Surroundings.time
      durationMs := ((← IO.monoMsNow) - start : Nat) } before
  Surroundings.carryOut before outcome.tree
  Surroundings.write (← IO.getStdout) outcome.output
  Surroundings.write (← IO.getStderr) (outcome.console ++ outcome.errors)
  return UInt32.ofNat outcome.exitCode.toNat
