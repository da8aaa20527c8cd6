/-
  ModuleBuild.FileTree.Resolve
  ────────────────────────────
  **WHAT A PATH NAMES.**

  The system follows a path name by name.  Links on the way are followed, at
  most forty of them; `..` leads to the directory above the one reached, also
  behind a link.  A path ends at an entry, or at a vacant name in a directory
  that is there.  The link that a path ends at is followed or not, as the
  operation asks; a slash at the end asks for a directory, also one at the
  end of a link that is followed, and no file is made at such a path.

  Main results:
    * `follow_holds` — what a path is found to name is there, and a vacant name is vacant in a
      directory.
-/
import ModuleBuild.Failure
import ModuleBuild.FileTree.Basic
import ModuleBuild.Path.Basic

namespace ModuleBuild

namespace FileTree

/-! ## §1. Following names. -/

/-- Where a path leads. -/
inductive Place
  /-- Something is there. -/
  | occupied (location : Location)
  /-- A directory is there, and no such name in it. -/
  | vacant (parent : Location) (name : Text)
  deriving DecidableEq

/-- The most links that one path may lead through. -/
def maxLinks : Nat := 40

/-- The most bytes in a name. -/
def maxNameBytes : Nat := 255

/-- The bytes that a path has to stay below. -/
def pathBytesLimit : Nat := 4096

/-- What an operation wants of the last name of a path. -/
inductive Aim
  /-- What has the name, be it a link. -/
  | name
  /-- What the name leads to. -/
  | target
  /-- A file that the name leads to, to be made if it is missing. -/
  | file
  deriving DecidableEq

/-- Follows names from a directory.  `slash` says whether the path asks for a directory; `links`
more links may be followed. -/
def follow (t : FileTree) (aim : Aim) (slash : Bool) (links : Nat) (dir : Location) :
    List Text → Except SystemFault Place
  | [] => .ok (.occupied dir)
  | name :: rest =>
    if name = Path.here then follow t aim slash links dir rest
    else if name = Path.up then follow t aim slash links dir.dropLast rest
    else if rest = [] ∧ slash = true ∧ aim = .file then .error .isDirectory
    else if maxNameBytes < Utf8.byteCount name then .error .nameTooLong
    else
      let next := Utf8.nameForm name
      match t.entryAt? (dir ++ [next]) with
      | none => if rest = [] then .ok (.vacant dir next) else .error .noEntry
      | some .directory => follow t aim slash links (dir ++ [next]) rest
      | some (.file _) =>
        if rest = [] ∧ slash = false then .ok (.occupied (dir ++ [next])) else .error .notDirectory
      | some (.link path) =>
        if rest = [] ∧ aim = .name ∧ slash = false then .ok (.occupied (dir ++ [next]))
        else
          match links with
          | 0 => .error .tooManyLinks
          | more + 1 =>
            if path = [] then .error .noEntry
            else
              follow t aim (slash || (rest = [] && Text.endsWith path "/")) more
                (if Path.isAbsolute path then [] else dir) (Path.names path ++ rest)
  termination_by names => (links, names.length)

/-- The directory above a directory is one. -/
theorem isDirectory_dropLast {t : FileTree} {d : Location} (h : t.entryAt? d = some .directory) :
    t.entryAt? d.dropLast = some .directory := by
  rcases List.eq_nil_or_concat d with rfl | ⟨d', n, rfl⟩
  · rfl
  · rw [List.concat_eq_append] at h ⊢
    rw [List.dropLast_concat]
    exact isDirectory_of_append (by rw [h]; simp)

/-- What a place says about the tree. -/
def Place.Holds (t : FileTree) : Place → Prop
  | .occupied l => t.entryAt? l ≠ none
  | .vacant parent name =>
    t.entryAt? parent = some .directory ∧ t.entryAt? (parent ++ [name]) = none

/-- Whatever names lead to is there, and what they lead in is a directory. -/
theorem follow_holds {t : FileTree} {aim : Aim} {slash : Bool} {links : Nat} {dir : Location}
    {names : List Text} (hdir : t.entryAt? dir = some .directory) :
    ∀ p, follow t aim slash links dir names = .ok p → p.Holds t := by
  fun_induction follow t aim slash links dir names with
  | case1 => rintro _ ⟨⟩; simp [Place.Holds, hdir]
  | case2 _ _ _ _ ih => exact ih hdir
  | case3 _ _ _ _ _ ih => exact ih (isDirectory_dropLast hdir)
  | case4 => intro p h; cases h
  | case5 => intro p h; cases h
  | case6 => rename_i he _; rintro _ ⟨⟩; exact ⟨hdir, he⟩
  | case7 => intro p h; cases h
  | case8 => rename_i he ih; exact ih he
  | case9 => rename_i he _; rintro _ ⟨⟩; simp [Place.Holds, he]
  | case10 => intro p h; cases h
  | case11 => rename_i he _; rintro _ ⟨⟩; simp [Place.Holds, he]
  | case12 => intro p h; cases h
  | case13 => intro p h; cases h
  | case14 =>
    rename_i ih
    refine ih ?_
    split
    · rfl
    · exact hdir

/-! ## §2. Paths. -/

/-- Refuses a path that has no form in the system: one with a surrogate that stands for no byte,
or with a NUL. -/
def checkPath (p : Text) : Except Failure Unit :=
  match Utf8.unnameable? 0 p with
  | some fault => .error (.unencodable fault)
  | none => if p.any (·.code = 0) then .error .nullInPath else .ok ()

/-- Where a path leads. -/
def locate (t : FileTree) (aim : Aim) (p : Text) : Except Failure Place := do
  checkPath p
  let found : Except SystemFault Place :=
    if p = [] then .error .noEntry
    else if pathBytesLimit ≤ Utf8.byteCount p then .error .nameTooLong
    else
      follow t aim (Text.endsWith p "/") maxLinks
        (if Path.isAbsolute p then [] else t.workingDir) (Path.names p)
  match found with
  | .ok place => .ok place
  | .error fault => .error (.system fault p none)

/-- What a path names, after the link it ends at. -/
def find? (t : FileTree) (p : Text) : Option Entry :=
  match t.locate .target p with
  | .ok (.occupied l) => t.entryAt? l
  | _ => none

/-- What a path names, a link included. -/
def findLink? (t : FileTree) (p : Text) : Option Entry :=
  match t.locate .name p with
  | .ok (.occupied l) => t.entryAt? l
  | _ => none

/-- Whether a path names something, after links. -/
def pathExists (t : FileTree) (p : Text) : Bool := (t.find? p).isSome

/-- Whether a path names something, a dangling link included. -/
def pathOccupied (t : FileTree) (p : Text) : Bool := (t.findLink? p).isSome

/-- Whether a path names a directory. -/
def namesDirectory (t : FileTree) (p : Text) : Bool := t.find? p = some .directory

/-- Whether a path names a file. -/
def namesFile (t : FileTree) (p : Text) : Bool :=
  match t.find? p with
  | some (.file _) => true
  | _ => false

/-- Whether a path names a link. -/
def namesLink (t : FileTree) (p : Text) : Bool :=
  match t.findLink? p with
  | some (.link _) => true
  | _ => false

/-- The absolute path of a location. -/
def pathOf (l : Location) : Text := CodePoint.slash :: Text.joinWith "/" l

/-- The absolute normal form of a path. -/
def absolute (t : FileTree) (p : Text) : Text :=
  Path.resolveAgainst (pathOf t.workingDir) p

/-- Refuses a relative path when the directory from which it starts is gone. -/
def checkWorkingDir (t : FileTree) (p : Text) : Except Failure Unit :=
  if Path.isAbsolute p || t.isDirectory t.workingDir then .ok () else .error .noWorkingDirectory

/-! ## §3. Reading. -/

/-- The location of the directory that a path names. -/
def openDirectory (t : FileTree) (p : Text) : Except Failure Location :=
  match t.locate .target p with
  | .error f => .error f
  | .ok (.vacant _ _) => .error (.system .noEntry p none)
  | .ok (.occupied l) =>
    if t.isDirectory l then .ok l else .error (.system .notDirectory p none)

/-- The bytes of the file that a path names. -/
def readBytes (t : FileTree) (p : Text) : Except Failure Bytes :=
  match t.locate .target p with
  | .error f => .error f
  | .ok (.vacant _ _) => .error (.system .noEntry p none)
  | .ok (.occupied l) =>
    match t.entryAt? l with
    | some (.file content) => .ok content
    | _ => .error (.system .isDirectory p none)

/-- The text of the file that a path names. -/
def readText (t : FileTree) (p : Text) : Except Failure Text := do
  let content ← t.readBytes p
  match Utf8.decode content with
  | .ok text => .ok text
  | .error fault => .error (.undecodable fault)

end FileTree

end ModuleBuild
