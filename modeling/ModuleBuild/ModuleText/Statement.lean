/-
  ModuleBuild.ModuleText.Statement
  ────────────────────────────────
  **COMPLETING THE SPECIFIERS OF IMPORT STATEMENTS.**

  Two kinds of statement point at a module.  A from-statement is the word
  `import` or `export`, blanks, bindings, the word `from` and a quoted
  specifier; bindings may span lines but hold no quote and no semicolon.  A
  bare statement is the word `import` and a quoted specifier.  Only relative
  specifiers on one line count.

  A pass over a text replaces the specifiers of one kind of statement; the
  from-pass goes first, then the bare pass.

  Main results:
    * `complete_eq` — completing a text is the two passes, one after the other;
    * `pass_of_cut_eq_nil` — a text without quotes is kept.
-/
import ModuleBuild.ModuleText.Quotes
import ModuleBuild.Specifier
import ModuleBuild.Text.Blank
import ModuleBuild.Text.Word

namespace ModuleBuild

namespace ModuleText

/-! ## §1. What stands before a specifier. -/

/-- The words that start a from-statement. -/
def fromKeywords : List Text := ["import", "export"]

/-- What follows each keyword that no word character touches in front. -/
def afterKeywords (touched : Bool) : Text → List Text
  | [] => []
  | c :: rest =>
    let here :=
      if touched then []
      else
        (fromKeywords.filter (Text.startsWith (c :: rest))).map fun k => (c :: rest).drop k.length
    here ++ afterKeywords c.isWord rest

/-- Whether a text ends, blanks aside, with a word that no word character touches in front. -/
def endsWithWord (word t : Text) : Bool :=
  let body := Text.trimEnd t
  body.endsWith word &&
    match (body.take (body.length - word.length)).getLast? with
    | none => true
    | some c => !c.isWord

/-- Whether a text is blanks and bindings up to the word `from`. -/
def isBindings (t : Text) : Bool :=
  (match t with
    | [] => false
    | c :: _ => c.isBlank) &&
  !t.contains (CodePoint.ofChar ';') && endsWithWord "from" t

/-- Whether a run ends with a from-statement that lacks its specifier. -/
def opensFrom (run : Text) : Bool := (afterKeywords false run).any isBindings

/-- Whether a run ends with a bare statement that lacks its specifier. -/
def opensBare (run : Text) : Bool := endsWithWord "import" run

/-! ## §2. Passes. -/

/-- Whether a run between two quotes is a relative specifier with something after the dots and
slash, on one line. -/
def isTarget (run : Text) : Bool :=
  Specifier.isRelative run && run ≠ "./" && run ≠ "../" &&
    !run.contains CodePoint.carriageReturn && !run.contains CodePoint.lineFeed

/-- Replaces the specifiers of the statements that `opens` recognises; `run` stands before the
pieces.  The quote that closes a specifier opens nothing. -/
def passPieces (opens : Text → Bool) (f : Text → Text) (run : Text) : List Piece → List Piece
  | [] => []
  | [p] => [p]
  | p :: p' :: rest =>
    if opens run && p.quote = p'.quote && isTarget p.run then
      ⟨p.quote, f p.run⟩ :: p' :: passPieces opens f p'.run rest
    else p :: passPieces opens f p.run (p' :: rest)

/-- The specifiers that a pass replaces, in order. -/
def targetsOf (opens : Text → Bool) (run : Text) : List Piece → List Text
  | [] => []
  | [_] => []
  | p :: p' :: rest =>
    if opens run && p.quote = p'.quote && isTarget p.run then
      p.run :: targetsOf opens p'.run rest
    else targetsOf opens p.run (p' :: rest)

/-- A text with the specifiers of one kind of statement replaced. -/
def pass (opens : Text → Bool) (f : Text → Text) (t : Text) : Text :=
  glue (cut t).1 (passPieces opens f (cut t).1 (cut t).2)

/-- The specifiers of one kind of statement in a text. -/
def targets (opens : Text → Bool) (t : Text) : List Text := targetsOf opens (cut t).1 (cut t).2

theorem pass_of_cut_eq_nil {opens : Text → Bool} {f : Text → Text} {t : Text}
    (h : (cut t).2 = []) : pass opens f t = t := by
  conv => rhs; rw [← glue_cut t]
  simp [pass, h, passPieces]

/-! ## §3. Both kinds. -/

/-- A text with the relative specifiers of its import statements replaced. -/
def mapSpecifiers (f : Text → Text) (t : Text) : Text := pass opensBare f (pass opensFrom f t)

/-- The specifiers that are replaced, in the order in which they are met: the from-pass first. -/
def metSpecifiers (f : Text → Text) (t : Text) : List Text :=
  targets opensFrom t ++ targets opensBare (pass opensFrom f t)

/-- A module's text with complete specifiers. -/
def complete (t : Text) : Text := mapSpecifiers Specifier.addExtension t

theorem complete_eq (t : Text) :
    complete t = pass opensBare Specifier.addExtension (pass opensFrom Specifier.addExtension t) :=
  rfl

end ModuleText

end ModuleBuild
