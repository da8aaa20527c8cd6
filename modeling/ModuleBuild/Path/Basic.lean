/-
  ModuleBuild.Path.Basic
  ──────────────────────
  **PATHS.**

  A path is a text: names between slashes, absolute when it starts with one.
  Normalising drops empty names and single dots and lets `..` take back the
  name before it; two slashes at the start, and only two, are kept.  All of
  this looks at the text alone: links are the file tree's matter.

  Main results:
    * `normalize_ne_nil` — a normal path is never empty;
    * `resolveAgainst_of_isAbsolute` — an absolute path ignores its anchor.
-/
import ModuleBuild.Path.Extension

namespace ModuleBuild

namespace Path

/-! ## §1. Joining and cutting. -/

/-- Whether a path starts at the root. -/
def isAbsolute (p : Text) : Bool := p.head? = some CodePoint.slash

/-- A path seen from a directory: itself if it is absolute. -/
def join (dir p : Text) : Text :=
  if isAbsolute p then p
  else if dir.isEmpty || dir.getLast? = some CodePoint.slash then dir ++ p
  else dir ++ CodePoint.slash :: p

/-- The path of the directory that holds a path's last name, without slashes at its end unless it
is made of slashes. -/
def dirName (p : Text) : Text :=
  let head := throughLast CodePoint.slash p
  if head.all (· = CodePoint.slash) then head else head.dropEndWhile (· = CodePoint.slash)

/-- The directory part is shorter than the path by the last name, at least. -/
theorem length_dirName_add_baseName (p : Text) :
    (dirName p).length + (baseName p).length ≤ p.length := by
  have hsplit := congrArg List.length (throughLast_append_afterLast CodePoint.slash p)
  have hle : (dirName p).length ≤ (throughLast CodePoint.slash p).length := by
    unfold dirName
    dsimp only
    split
    · exact Nat.le_refl _
    · simpa [Text.dropEndWhile] using
        (List.dropWhile_suffix (l := (throughLast CodePoint.slash p).reverse)
          (p := fun c => decide (c = CodePoint.slash))).length_le
  simp only [List.length_append] at hsplit
  unfold baseName
  omega

/-- The names of a path: the pieces between slashes that are not empty. -/
def names (p : Text) : List Text := (Text.split CodePoint.slash p).filter (· ≠ [])

/-- The current directory, as a name. -/
def here : Text := "."

/-- The directory above, as a name. -/
def up : Text := ".."

/-! ## §2. Normal form. -/

/-- The slashes that a normal path keeps at its start. -/
def rootOf (p : Text) : Text :=
  if Text.startsWith p "//" && !Text.startsWith p "///" then "//"
  else if isAbsolute p then "/"
  else []

/-- One more name on a stack of names, last first: `..` takes a name away if there is one to
take, and goes no higher than the root. -/
def pushName (rooted : Bool) (stack : List Text) (name : Text) : List Text :=
  if name = [] ∨ name = here then stack
  else if name = up then
    match stack with
    | [] => if rooted then [] else [up]
    | top :: rest => if top = up then up :: stack else rest
  else name :: stack

/-- The names of a path in normal form. -/
def normalNames (p : Text) : List Text :=
  ((Text.split CodePoint.slash p).foldl (pushName (rootOf p ≠ [])) []).reverse

/-- The normal form of a path. -/
def normalize (p : Text) : Text :=
  let body := rootOf p ++ Text.joinWith "/" (normalNames p)
  if body = [] then here else body

theorem normalize_ne_nil (p : Text) : normalize p ≠ [] := by
  unfold normalize
  dsimp only
  split
  · decide
  · assumption

/-- The normal form of a path seen from a directory. -/
def resolveAgainst (base p : Text) : Text :=
  if isAbsolute p then normalize p else normalize (join base p)

theorem resolveAgainst_of_isAbsolute {base p : Text} (h : isAbsolute p = true) :
    resolveAgainst base p = normalize p := by
  simp [resolveAgainst, h]

/-! ## §3. Relations between paths. -/

/-- How many names two lists start with in common. -/
def commonLength : List Text → List Text → Nat
  | a :: as, b :: bs => if a = b then commonLength as bs + 1 else 0
  | _, _ => 0

/-- The path that leads from one normal absolute path to another. -/
def relativeTo (start p : Text) : Text :=
  let from' := names start
  let to' := names p
  let n := commonLength from' to'
  let steps := List.replicate (from'.length - n) up ++ to'.drop n
  if steps = [] then here else Text.joinWith "/" steps

/-- A path with forward slashes. -/
def toForwardSlashes (p : Text) : Text := p.substitute CodePoint.backslash CodePoint.slash

end Path

end ModuleBuild
