/-
  ModuleBuild.ModuleText.ImportLine
  ─────────────────────────────────
  **LINES THAT IMPORT A MARKER.**

  An import line is `import`, bindings and `from` or nothing, a quoted
  specifier, and at most one semicolon, with blanks between.  The line is
  deleted, with its terminator, when the specifier names a marker; every
  other line is kept as it is.

  Main results:
    * `stripMarkers_eq` — what is left is the lines that are kept, in order;
    * `stripMarkers_nil` — without markers nothing is deleted.
-/
import ModuleBuild.ModuleText.Quotes
import ModuleBuild.Specifier
import ModuleBuild.Text.Blank
import ModuleBuild.Text.Lines

namespace ModuleBuild

namespace ModuleText

/-- Whether the run between `import` and the opening quote is blank, or is bindings, a blank in
front of them, and `from`. -/
def bindsSpecifier (run : Text) : Bool :=
  Text.isAllBlank run ||
    let body := Text.trimEnd run
    body.endsWith "from" &&
      match body.take (body.length - 4) with
      | [] => true
      | c :: _ => c.isBlank

/-- Whether nothing but blanks and one semicolon follows. -/
def endsStatement (t : Text) : Bool :=
  match Text.trimStart t with
  | [] => true
  | c :: rest => c = CodePoint.ofChar ';' && Text.isAllBlank rest

/-- The specifier of an import line, given without its terminator. -/
def importSpecifier? (line : Text) : Option Text :=
  let t := Text.trimStart line
  if t.startsWith "import" then
    match cut (t.drop 6) with
    | (run, [p, p']) =>
      if bindsSpecifier run && p.quote = p'.quote && endsStatement p'.run then some p.run else none
    | _ => none
  else none

/-- Whether a line imports a marker. -/
def isMarkerImport (line marker : Text) : Bool :=
  match importSpecifier? line with
  | none => false
  | some s => Specifier.hasSegment s marker

/-- Whether a line, terminator included, is kept. -/
def keepsLine (markers : List Text) (line : Text) : Bool :=
  !markers.any (isMarkerImport (Text.lineBody line))

/-- A module's text without the lines that import a marker. -/
def stripMarkers (markers : List Text) (t : Text) : Text :=
  Text.join ((Text.lines t).filter (keepsLine markers))

theorem stripMarkers_eq (markers : List Text) (t : Text) :
    stripMarkers markers t = ((Text.lines t).filter (keepsLine markers)).flatten := rfl

theorem stripMarkers_nil (t : Text) : stripMarkers [] t = t := by
  have h : (Text.lines t).filter (keepsLine []) = Text.lines t :=
    List.filter_eq_self.2 (by simp [keepsLine])
  rw [stripMarkers, h, Text.join_lines]

end ModuleText

end ModuleBuild
