/-
  ModuleBuild.FileTree.Difference
  ───────────────────────────────
  **FROM FILES TO A TREE, AND BACK.**

  A tree can be made of files with their paths, and two trees can be
  compared: a file was written if the second tree has it and the first has
  not, or not with these bytes; it was removed if the first tree has it and
  the second has no file there.

  Main results:
    * `entryAt?_of_mem_written` — what is written was not there with these bytes;
    * `entryAt?_of_mem_removed` — where a file was removed lies no file.
-/
import ModuleBuild.FileTree.Edit

namespace ModuleBuild

/-- The files of a forest that lies at a location. -/
def Forest.files (dir : Location) : Forest → List (Location × Bytes)
  | [] => []
  | (name, .file content) :: cs => (dir ++ [name], content) :: files dir cs
  | (_, .link _) :: cs => files dir cs
  | (name, .directory ds) :: cs => files (dir ++ [name]) ds ++ files dir cs

theorem Forest.files_nil (dir : Location) : Forest.files dir [] = [] := by
  unfold Forest.files
  rfl

namespace FileTree

/-- Puts a file at a path, and makes the directories above it. -/
def plantFile (path : Text) (content : Bytes) : Edit Unit := do
  Edit.makeDirectories true (Path.dirName path)
  Edit.change (·.writeBytes path content)

/-- The tree of some files, seen from a directory; a file that cannot be put at its path is left
out. -/
def ofFiles (workingDir : Text) (files : List (Text × Bytes)) : FileTree :=
  let bare := ((Edit.makeDirectories true workingDir).runOn ⟨[], [], .closed⟩).2
  files.foldl (fun t f => ((plantFile f.1 f.2).runOn t).2)
    { bare with workingDir := Path.names workingDir }

/-- Whether a file lies at a location. -/
def isFile (t : FileTree) (l : Location) : Bool :=
  match t.entryAt? l with
  | some (.file _) => true
  | _ => false

/-- The files of a tree. -/
def files (t : FileTree) : List (Location × Bytes) := t.top.files []

/-- The files that were written between two trees, with their bytes. -/
def written (before after : FileTree) : List (Location × Bytes) :=
  after.files.filter fun f => before.entryAt? f.1 ≠ some (.file f.2)

/-- The files that were removed between two trees. -/
def removed (before after : FileTree) : List Location :=
  (before.files.map (·.1)).filter fun l => !after.isFile l

theorem entryAt?_of_mem_written {before after : FileTree} {l : Location} {content : Bytes}
    (h : (l, content) ∈ written before after) : before.entryAt? l ≠ some (.file content) := by
  simpa using (List.mem_filter.1 h).2

theorem entryAt?_of_mem_removed {before after : FileTree} {l : Location}
    (h : l ∈ removed before after) (content : Bytes) : after.entryAt? l ≠ some (.file content) := by
  have hl : after.isFile l = false := by simpa using (List.mem_filter.1 h).2
  intro e
  simp [isFile, e] at hl

end FileTree

end ModuleBuild
