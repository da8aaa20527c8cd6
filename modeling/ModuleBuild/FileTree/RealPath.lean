/-
  ModuleBuild.FileTree.RealPath
  ─────────────────────────────
  **PATHS WITHOUT LINKS.**

  The real path of a path has its links resolved, whether or not anything is
  there: a missing name is kept as it is.  A relative path is resolved as a
  relative one, so a link can be met twice, once under a relative path and
  once under an absolute one.  A link that is met under the same path while
  it is being resolved is a loop; then the part resolved so far and the names
  that are left make the real path, links and all.

  A path lies within a directory when its real path is the real path of the
  directory, or below it.

  Main results:
    * `realFrom_nil` — no names lead nowhere else;
    * `isWithin_iff` — what lies within a directory, in terms of real paths.
-/
import ModuleBuild.FileTree.Resolve

namespace ModuleBuild

namespace FileTree

/-! ## §1. Resolved parts of paths. -/

/-- A part of a path that holds no link: names from the root, or from a number of directories above
the working directory. -/
inductive Stem
  | rooted (names : Location)
  | relative (ups : Nat) (names : Location)
  deriving DecidableEq

namespace Stem

/-- The part with one more name. -/
def push (name : Text) : Stem → Stem
  | rooted names => rooted (names ++ [name])
  | relative ups names => relative ups (names ++ [name])

/-- The part that leads to the directory above. -/
def above : Stem → Stem
  | rooted names => rooted names.dropLast
  | relative ups [] => relative (ups + 1) []
  | relative ups names => relative ups names.dropLast

/-- How the part is written. -/
def path : Stem → Text
  | rooted names => pathOf names
  | relative ups names => Text.joinWith "/" (List.replicate ups Path.up ++ names)

/-- The names from the root that the part stands for. -/
def names (workingDir : Location) : Stem → Location
  | rooted names => names
  | relative ups names => workingDir.take (workingDir.length - ups) ++ names

end Stem

/-! ## §2. Resolving. -/

/-- What a path resolves to. -/
inductive Resolution
  | resolved (stem : Stem)
  /-- A loop was met: this path is left. -/
  | looped (path : Text)

/-- The path that a link at the end of a resolved part holds; a part that is too long for the
system is no link. -/
def linkAt? (t : FileTree) (stem : Stem) : Option Text :=
  if pathBytesLimit ≤ Utf8.byteCount stem.path then none
  else
    match t.entryAt? ((stem.names t.workingDir).map Utf8.nameForm) with
    | some (.link path) => some path
    | _ => none

/-- Resolves pieces of a path from a resolved part.  The links of `trail` are being resolved;
`links` more can be. -/
def realFrom (t : FileTree) (links : Nat) (trail : List Stem) (stem : Stem) :
    List Text → Except Failure Resolution
  | [] => .ok (.resolved stem)
  | name :: rest =>
    if name = [] ∨ name = Path.here then realFrom t links trail stem rest
    else if name = Path.up then realFrom t links trail stem.above rest
    else
      let next := stem.push name
      match checkPath next.path with
      | .error f => .error f
      | .ok () =>
        match t.linkAt? next with
        | none => realFrom t links trail next rest
        | some path =>
          let left := Path.join next.path (Text.joinWith "/" rest)
          match links with
          | 0 => .ok (.looped left)
          | more + 1 =>
            if trail.contains next then .ok (.looped left)
            else
              match realFrom t more (next :: trail)
                (if Path.isAbsolute path then .rooted [] else stem)
                (Text.split CodePoint.slash path) with
              | .error f => .error f
              | .ok (.looped p) => .ok (.looped (Path.join p (Text.joinWith "/" rest)))
              | .ok (.resolved stem) => realFrom t (more + 1) trail stem rest
  termination_by pieces => (links, pieces.length)

@[simp] theorem realFrom_nil (t : FileTree) (links : Nat) (trail : List Stem) (stem : Stem) :
    realFrom t links trail stem [] = .ok (.resolved stem) := by
  rw [realFrom]

/-- A real path: its names from the root, and whether it starts with two slashes, as the path that a
loop leaves may.  Two slashes are a root of their own, and nothing lies there. -/
structure RealPath where
  names : Location
  doubleRoot : Bool
  deriving DecidableEq

/-- The real path of a path.  One that is still relative needs the working directory.  Links on the
trail are written in different ways, and a path is shorter than the limit, so the limit for each
link is more than can be met. -/
def realPath (t : FileTree) (p : Text) : Except Failure RealPath :=
  match realFrom t (t.top.linkCount * pathBytesLimit) []
    (if Path.isAbsolute p then .rooted [] else .relative 0 []) (Text.split CodePoint.slash p) with
  | .error f => .error f
  | .ok (.resolved stem) =>
    (t.checkWorkingDir stem.path).map fun _ => ⟨stem.names t.workingDir, false⟩
  | .ok (.looped path) =>
    (t.checkWorkingDir path).map fun _ =>
      ⟨Path.normalNames (t.absolute path), Text.startsWith (t.absolute path) "//"⟩

/-- Whether a path lies within a directory, links resolved. -/
def isWithin (t : FileTree) (p root : Text) : Except Failure Bool :=
  match t.realPath p with
  | .error f => .error f
  | .ok inner =>
    match t.realPath root with
    | .error f => .error f
    | .ok outer => .ok (!outer.doubleRoot && outer.names.isPrefixOf inner.names)

/-- A path lies within a directory exactly if its real path starts with the directory's. -/
theorem isWithin_iff {t : FileTree} {p root : Text} :
    t.isWithin p root = .ok true ↔
      ∃ inner outer, t.realPath p = .ok inner ∧ t.realPath root = .ok outer ∧
        outer.doubleRoot = false ∧ outer.names <+: inner.names := by
  unfold isWithin
  cases t.realPath p with
  | error f => simp
  | ok inner =>
    cases t.realPath root with
    | error f => simp
    | ok outer => simp

end FileTree

end ModuleBuild
