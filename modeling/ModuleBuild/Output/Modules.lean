/-
  ModuleBuild.Output.Modules
  ──────────────────────────
  **MAKING EMITTED MODULES RUNNABLE.**

  Two passes go over the modules that the compiler has written: one completes
  relative import specifiers, the other deletes imports of markers.  Each
  module is read, changed and, if that makes a difference, replaced at once.
  A module that cannot be read or written is reported and left as it is.

  Main results:
    * `Tasks.run_nil` — without files nothing happens;
    * `countChanged_le` — no more files are counted than there are.
-/
import ModuleBuild.ModuleText.ImportLine
import ModuleBuild.ModuleText.Statement
import ModuleBuild.Output.Listing

namespace ModuleBuild

/-! ## §1. One task for each of some files. -/

namespace Tasks

/-- The part of the program that logs failed tasks. -/
def logger : Text := "typebuild.core.pipeline.worker"

/-- Whether a failed task stops only itself: the system refused a path, or a file is not UTF-8. -/
def isContained (failure : Failure) : Bool :=
  failure.isSystemFault ||
    match failure with
    | .undecodable _ => true
    | _ => false

/-- Runs the task of one file; a contained failure is reported and counts as no change. -/
def guarded (task : Text → Action Bool) (path : Text) : Action Bool := do
  try task path
  catch failure =>
    if isContained failure then
      Action.log .error logger
        (Text.join ["Failed to process ", path, ": ", failure.message])
      return false
    else throw failure

/-- Runs the tasks of the remaining files of `total`, of which `done` are done. -/
def runFrom (task : Text → Action Bool) (total done : Nat) : List Text → Action (List Bool)
  | [] => return []
  | path :: paths => do
    let changed ← guarded task path
    Action.note (.stageAdvanced (Binary64.percentOf (done + 1) total))
    return changed :: (← runFrom task total (done + 1) paths)

/-- Runs a task for each file, in order; tells for each whether it was changed. -/
def run (paths : List Text) (task : Text → Action Bool) : Action (List Bool) :=
  runFrom task paths.length 0 paths

theorem run_nil (task : Text → Action Bool) : run [] task = pure [] := rfl

/-- How many files were changed. -/
def countChanged (flags : List Bool) : Nat := (flags.filter id).length

theorem countChanged_le (flags : List Bool) : countChanged flags ≤ flags.length :=
  List.length_filter_le _ _

end Tasks

/-! ## §2. The two passes. -/

namespace Modules

/-- The part of the program that logs completed specifiers. -/
def completeLogger : Text := "typebuild.core.pipeline.stages.rewriter"

/-- The part of the program that logs deleted imports. -/
def stripLogger : Text := "typebuild.core.pipeline.stages.stripper"

/-- Replaces the text of a module by what a function makes of it; tells whether it changed. -/
def changeFile (f : Text → Text) (path : Text) : Action Bool := do
  let text ← Edit.ask (·.readText path)
  Edit.replaceIfChanged path text (f text)

/-- Completes the specifiers of one module. -/
def completeFile (path : Text) : Action Bool := do
  let changed ← changeFile ModuleText.complete path
  if changed then
    Action.log .info completeLogger (Text.join ["Fixed import paths in ", path])
  return changed

/-- Deletes the imports of markers from one module. -/
def stripFile (markers : List Text) (path : Text) : Action Bool := do
  let changed ← changeFile (ModuleText.stripMarkers markers) path
  if changed then
    Action.log .info stripLogger (Text.join ["Removed types import in: ", path])
  return changed

/-- The modules below a directory. -/
def list (root : Text) (ignored : NameSet) : Action (List Text) :=
  Listing.files root [Specifier.moduleExtension] ignored []

/-- Completes the specifiers of the modules below a directory; tells how many changed. -/
def completeAll (root : Text) (ignored : NameSet) : Action Nat := do
  let modules ← list root ignored
  Action.log .debug completeLogger
    (Text.join ["Rewriting imports in ", Text.ofNat modules.length, " modules under ", root])
  let changed := Tasks.countChanged (← Tasks.run modules completeFile)
  Action.log .info completeLogger
    (Text.join ["Fixed import paths in ", Text.ofNat changed, " of ", Text.ofNat modules.length,
      " JavaScript files."])
  return changed

/-- Deletes the imports of markers from the modules below a directory; tells how many changed. -/
def stripAll (root : Text) (markerNames : List Text) (ignored : NameSet) : Action Nat := do
  let markers := Specifier.markerStems markerNames
  if markers = [] then
    Action.log .warning stripLogger "No type files specified. Skipping type import removal."
    return 0
  let modules ← list root ignored
  let changed := Tasks.countChanged (← Tasks.run modules (stripFile markers))
  Action.log .info stripLogger
    (Text.join ["Checked all type imports in ", root, " (", Text.ofNat changed,
      " files changed)."])
  return changed

end Modules

end ModuleBuild
