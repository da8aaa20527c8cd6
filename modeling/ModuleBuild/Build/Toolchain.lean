/-
  ModuleBuild.Build.Toolchain
  ───────────────────────────
  **THE OUTSIDE TOOLS.**

  Types are checked and sources compiled by outside tools that a launcher
  starts.  A build knows of a tool its words, what it does to the tree, and
  the code it exits with; a tool that fails as the system does was not
  started at all.

  Main results:
    * `compileCommand_append` — the inputs stand in one place of the command.
-/
import ModuleBuild.Action

namespace ModuleBuild

/-- What a compiler is asked to do. -/
structure Compilation where
  inputs : List Text
  outDir : Text
  /-- The directory whose structure the output repeats. -/
  rootDir : Option Text

/-- The tools of a build, each with what it does to the tree and the code it exits with. -/
structure Toolchain where
  /-- Where the launcher was found. -/
  launcher : Option Text
  typeCheck : Edit Int
  compile : Compilation → Edit Int

namespace Toolchain

/-- The part of the program that logs what tools are run. -/
def logger : Text := "typebuild.core.services.compiler"

/-- The launcher's word in a command: where it was found, or its bare name. -/
def launcherWord (launcher : Option Text) : Text :=
  match launcher with
  | none => "npx"
  | some path => if path = [] then "npx" else path

/-- The words that start the compiler. -/
def compileCommand (launcher : Option Text) (c : Compilation) : List Text :=
  [launcherWord launcher, "esbuild"] ++ c.inputs ++
    ["--outdir=" ++ c.outDir, "--format=esm", "--target=es2023", "--platform=node", "--sourcemap",
      "--charset=utf8"] ++
    match c.rootDir with
    | none => []
    | some dir => if dir = [] then [] else ["--outbase=" ++ dir]

theorem compileCommand_append (launcher : Option Text) (c : Compilation) :
    ∃ rest, compileCommand launcher c = [launcherWord launcher, "esbuild"] ++ c.inputs ++ rest :=
  ⟨_, by rw [compileCommand, List.append_assoc]⟩

/-- The words that start the type check. -/
def typeCheckCommand (launcher : Option Text) : List Text :=
  [launcherWord launcher, "tsc", "--noEmit"]

/-- Runs a tool; the result is what is wrong, if anything. -/
def run (label : Text) (r : ToolRun) (tool : Edit Int) : Action (Option Text) := do
  Action.log .debug logger (Text.join ["Running ", label, ": ", Text.joinWith " " r.command])
  Action.note (.toolRan r)
  try
    let code ← tool
    if code = 0 then return none
    return some (Text.join [label, " failed with exit code ", Text.ofInt code])
  catch failure =>
    if failure.isSystemFault then
      return some (Text.join [label, " could not be started: ", failure.message])
    else throw failure

/-- Checks the types of a project; the result is what is wrong, if anything. -/
def checkTypes (tools : Toolchain) (projectDir : Text) : Action (Option Text) := do
  Action.log .info logger "Checking TypeScript types (strict mode)..."
  let fault ← run "Type check" ⟨typeCheckCommand tools.launcher, projectDir⟩ tools.typeCheck
  if fault.isNone then Action.log .info logger "Types check passed!"
  return fault

/-- Compiles sources; the result is what is wrong, if anything. -/
def compileSources (tools : Toolchain) (c : Compilation) (projectDir : Text) :
    Action (Option Text) := do
  if c.inputs = [] then
    Action.log .warning logger "No TypeScript files found. Nothing to compile."
    return none
  Action.log .info logger
    (Text.join ["Compiling ", Text.ofNat c.inputs.length, " TypeScript files into ", c.outDir])
  run "esbuild" ⟨compileCommand tools.launcher c, projectDir⟩ (tools.compile c)

/-! ## A compiler for sources that need none. -/

/-- Where the compiler puts the module of a source. -/
def emittedPath (c : Compilation) (input : Text) : Text :=
  Path.join c.outDir
    (Path.withoutExtension (Path.relativeTo (c.rootDir.getD []) input) ++ ".js")

/-- Copies each source to where its module belongs. -/
def copySources (c : Compilation) : Edit Unit :=
  c.inputs.forM fun input => do
    let dest := emittedPath c input
    Edit.makeDirectories true (Path.dirName dest)
    Edit.copyBytes input dest

/-- The tools of a program that starts no process: sources are copied, and there is nothing to check
types with. -/
def builtIn : Toolchain :=
  { launcher := none
    typeCheck := throw (.system .noEntry (launcherWord none) none)
    compile := fun c => do
      copySources c
      return 0 }

end Toolchain

end ModuleBuild
