/-
  ModuleBuild.Output.Entry
  ────────────────────────
  **FINDING THE ENTRY MODULE.**

  The entry module is the first file, in the order of the walk, whose name is
  the configured one, letter case aside.

  Main results:
    * `isEntry_of_name_eq` — the configured name itself will do.
-/
import ModuleBuild.Output.Listing
import ModuleBuild.Text.Lower

namespace ModuleBuild

namespace Entry

/-- The part of the program that logs the search. -/
def logger : Text := "typebuild.core.pipeline.stages.entry"

/-- Whether a listed path is a file of the given name, letter case aside. -/
def isEntry (indexFileName : Text) (e : Text × Bool) : Bool :=
  !e.2 && Text.lower (Path.baseName e.1) = Text.lower indexFileName

theorem isEntry_of_name_eq (p : Text) : isEntry (Path.baseName p) (p, false) = true := by
  simp [isEntry]

/-- The path of the entry module from the output directory. -/
def find (output indexFileName : Text) (ignored : NameSet) : Action (Option Text) := do
  if !(← Action.view (·.namesDirectory output)) then
    Action.log .warning logger
      (Text.join ["Output directory ", output, " does not exist."])
    return none
  let entries ← Listing.all output ignored
  let root ← Action.view (·.absolute output)
  return (entries.find? (isEntry indexFileName)).map fun e => FileTree.relativePath root e.1

end Entry

end ModuleBuild
