/-
  ModuleBuild.Specifier
  ─────────────────────
  **IMPORT SPECIFIERS AND MARKERS.**

  A specifier is the quoted path of an import.  The module loader resolves a
  relative one only when it is complete, so `.js` is added to a last segment
  that has no extension the loader knows; a specifier that ends with a slash
  names a directory and is left alone.

  A marker is the stem of a source that holds declarations only.  A specifier
  names it when one of its segments is the marker, alone or with the
  extension of a module.

  Main results:
    * `addExtension_of_hasRuntimeExtension` — a complete specifier is kept;
    * `hasSegment_nil` — the empty marker names nothing.
-/
import ModuleBuild.Path.Extension
import ModuleBuild.Text.Lower

namespace ModuleBuild

namespace Specifier

/-- The extension of emitted modules. -/
def moduleExtension : Text := ".js"

/-- The extension of sources. -/
def sourceExtension : Text := ".ts"

/-- The extensions that the module loader resolves as they are. -/
def runtimeExtensions : List Text := [".js", ".mjs", ".cjs", ".json"]

/-- The extensions that are not part of a module's name. -/
def segmentExtensions : List Text := runtimeExtensions ++ [sourceExtension]

/-- Whether a specifier is relative to the module that holds it. -/
def isRelative (s : Text) : Bool := s.startsWith "./" || s.startsWith "../"

/-- Whether the last segment has an extension that the loader knows, in any letter case. -/
def hasRuntimeExtension (s : Text) : Bool :=
  runtimeExtensions.contains (Text.lower (Path.splitExtension (Path.baseName s)).2)

/-- The complete form of a specifier. -/
def addExtension (s : Text) : Text :=
  if hasRuntimeExtension s || s.endsWith [CodePoint.slash] then s else s ++ moduleExtension

theorem addExtension_of_hasRuntimeExtension {s : Text} (h : hasRuntimeExtension s = true) :
    addExtension s = s := by
  simp [addExtension, h]

/-- The stem of a source's name: the last segment, slashes of either kind, without extension. -/
def markerStem (name : Text) : Text :=
  let path := (name.substitute CodePoint.backslash CodePoint.slash).dropEndWhile
    (· = CodePoint.slash)
  (Path.splitExtension (Path.baseName path)).1

/-- The stems of some names, without repetition, in the order of their first occurrence. -/
def markerStems (names : List Text) : List Text :=
  names.foldl (fun stems name =>
    let stem := markerStem name
    if stem.isEmpty || stems.contains stem then stems else stems ++ [stem]) []

/-- Whether a segment names a marker. -/
def segmentNames (marker segment : Text) : Bool :=
  let p := Path.splitExtension segment
  segment = marker || (p.1 = marker && segmentExtensions.contains (Text.lower p.2))

/-- Whether a whole segment of a specifier names a marker. -/
def hasSegment (s marker : Text) : Bool :=
  !marker.isEmpty && (Text.split CodePoint.slash s).any (segmentNames marker)

@[simp] theorem hasSegment_nil (s : Text) : hasSegment s [] = false := by
  simp [hasSegment]

end Specifier

end ModuleBuild
