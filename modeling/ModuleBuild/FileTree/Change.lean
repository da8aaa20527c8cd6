/-
  ModuleBuild.FileTree.Change
  ───────────────────────────
  **SINGLE CHANGES.**

  Each operation of the system changes one place of the tree or refuses and
  changes nothing, so its result is a failure or the whole new tree.  The
  last name of a path decides what is refused: dots and the root are never
  made, moved or removed, and a slash at the end asks for a directory.

  One file may be open; what is written to it goes behind what it holds,
  wherever it lies by then.

  Main results:
    * `replaceText_eq_put` — a replacement that succeeds puts the bytes of the text in one place.
-/
import ModuleBuild.FileTree.Resolve

namespace ModuleBuild

namespace FileTree

/-! ## §1. The last name of a path. -/

/-- What a path ends with. -/
inductive Ending
  | root
  | here
  | up
  | named (name : Text)
  deriving DecidableEq

/-- The last name of a path. -/
def ending (p : Text) : Ending :=
  match (Path.names p).getLast? with
  | none => .root
  | some name => if name = Path.here then .here else if name = Path.up then .up else .named name

/-- The directory in which the last name of a path is looked up. -/
def parentOf (t : FileTree) (p : Text) : Except SystemFault Location :=
  if p = [] then .error .noEntry
  else if pathBytesLimit ≤ Utf8.byteCount p then .error .nameTooLong
  else
    match follow t .target true maxLinks (if Path.isAbsolute p then [] else t.workingDir)
      (Path.names p).dropLast with
    | .ok (.occupied l) => .ok l
    | .ok (.vacant _ _) => .error .noEntry
    | .error fault => .error fault

/-- The location of a path's last name, links at the end not followed; `dots` is the fault of a
path that ends with dots or is the root. -/
def lastLocation (t : FileTree) (p : Text) (dots : Ending → SystemFault) :
    Except SystemFault Location :=
  match t.parentOf p with
  | .error fault => .error fault
  | .ok parent =>
    match ending p with
    | .named name =>
      if maxNameBytes < Utf8.byteCount name then .error .nameTooLong
      else .ok (parent ++ [Utf8.nameForm name])
    | other => .error (dots other)

/-- An operation on one path, its faults told with the path. -/
def onPath (p : Text) (change : Except SystemFault FileTree) : Except Failure FileTree := do
  checkPath p
  match change with
  | .ok t => .ok t
  | .error fault => .error (.system fault p none)

/-! ## §2. Removing. -/

/-- Removes a file or a link. -/
def removeFile (t : FileTree) (p : Text) : Except Failure FileTree :=
  onPath p do
    let l ← t.lastLocation p fun _ => .isDirectory
    match t.entryAt? l with
    | none => .error .noEntry
    | some .directory => .error .isDirectory
    | some _ => if Text.endsWith p "/" then .error .notDirectory else .ok (t.remove l)

/-- The fault of removing a directory whose path ends with dots or is the root. -/
def removalFault : Ending → SystemFault
  | .here => .invalidName
  | .up => .notEmpty
  | _ => .busy

/-- Removes an empty directory. -/
def removeDirectory (t : FileTree) (p : Text) : Except Failure FileTree :=
  onPath p do
    let l ← t.lastLocation p removalFault
    match t.entryAt? l with
    | none => .error .noEntry
    | some .directory =>
      if (t.namesAt l).toList = [] then .ok (t.remove l) else .error .notEmpty
    | some _ => .error .notDirectory

/-- Removes everything that a directory contains. -/
def clearDirectory (t : FileTree) (p : Text) : Except Failure FileTree := do
  let l ← t.openDirectory p
  .ok (t.put l .emptyDirectory)

/-! ## §3. Making. -/

/-- Makes a directory in one that is there. -/
def makeDirectory (t : FileTree) (p : Text) : Except Failure FileTree :=
  onPath p do
    let l ← t.lastLocation p fun _ => .exists
    match t.entryAt? l with
    | none => .ok (t.put l .emptyDirectory)
    | some _ => .error .exists

/-- The location of a file to be written, through links, and what it holds if it is there. -/
def fileAt (t : FileTree) (p : Text) : Except Failure (Location × Option Bytes) :=
  match t.locate .file p with
  | .error failure => .error failure
  | .ok (.vacant parent name) => .ok (parent ++ [name], none)
  | .ok (.occupied l) =>
    match t.entryAt? l with
    | some (.file content) => .ok (l, some content)
    | _ => .error (.system .isDirectory p none)

/-- Writes a file, through links, in place of what it held. -/
def writeBytes (t : FileTree) (p : Text) (content : Bytes) : Except Failure FileTree :=
  (t.fileAt p).map fun place => t.put place.1 (.file content)

/-! ## §4. Moving. -/

/-- Puts a new file at a path, in place of the file or link that lies there. -/
def placeFile (t : FileTree) (p : Text) (content : Bytes) : Except SystemFault FileTree := do
  let l ← t.lastLocation p fun _ => .busy
  if Text.endsWith p "/" then .error .notDirectory
  else if t.isDirectory l then .error .isDirectory
  else .ok ((t.remove l).put l (.file content))

/-- A move between two paths, its faults told with both. -/
def onMove (source p : Text) (change : Except SystemFault FileTree) : Except Failure FileTree := do
  checkPath p
  match change with
  | .ok t => .ok t
  | .error fault => .error (.system fault source (some p))

/-- Why a node cannot be moved onto what lies at a location, if anything. -/
def moveFault (t : FileTree) (n : Node) (l : Location) : Option SystemFault :=
  match n.entry, t.entryAt? l with
  | .directory, some .directory =>
    if (t.namesAt l).toList = [] then none else some .notEmpty
  | .directory, some _ => some .notDirectory
  | _, some .directory => some .isDirectory
  | _, _ => none

/-- Gives what a path names, a link included, another path, in place of what lies there. -/
def move (t : FileTree) (source p : Text) : Except Failure FileTree := do
  checkPath source
  onMove source p do
    let l ← t.lastLocation source fun _ => .busy
    let m ← t.lastLocation p fun _ => .busy
    match t.nodeAt? l with
    | none => .error .noEntry
    | some n =>
      if l = m then .ok t
      else if l <+: m then .error .invalidName
      else
        match t.moveFault n m with
        | some fault => .error fault
        | none => .ok (((t.remove l).remove m).put m n)

/-! ## §5. The open file. -/

/-- The tree with no file open. -/
def close (t : FileTree) : FileTree := { t with openFile := .closed }

/-- Opens a file, through links, to write behind what it holds; it is made if it is missing. -/
def openToAppend (t : FileTree) (p : Text) : Except Failure FileTree :=
  (t.fileAt p).map fun place =>
    { t.put place.1 (.file (place.2.getD [])) with openFile := .named place.1 }

/-- What the open file holds; of one without a name nothing is known. -/
def openContent (t : FileTree) : Bytes :=
  match t.openFile with
  | .named l =>
    match t.entryAt? l with
    | some (.file content) => content
    | _ => []
  | _ => []

/-- Writes behind what the open file holds. -/
def append (t : FileTree) (bytes : Bytes) : FileTree :=
  match t.openFile with
  | .named l => t.put l (.file (t.openContent ++ bytes))
  | _ => t

theorem openFile_close (t : FileTree) : t.close.openFile = .closed := rfl

/-! ## §6. Replacing a file at once. -/

/-- The path of the file in which new content is prepared, beside the file it will replace. -/
def preparedPath (t : FileTree) (p : Text) : Text :=
  Path.join (Path.dirName (t.absolute p)) ".typebuild-X.tmp"

/-- The letters of its name that are not shown: eight are drawn, and one stands for them. -/
def lettersNotShown : Nat := 7

/-- The directory in which the file at a prepared path is made. -/
def parentOfPrepared (t : FileTree) (prepared : Text) : Except SystemFault Location :=
  if pathBytesLimit ≤ Utf8.byteCount prepared + lettersNotShown then .error .nameTooLong
  else t.parentOf prepared

/-- Replaces the content of a file, which readers see whole or not at all: the text is written to a
file of its own beside it, and that file takes its place.  A link is replaced, not followed. -/
def replaceText (t : FileTree) (p : Text) (content : Text) : Except Failure FileTree := do
  let prepared := t.preparedPath p
  let _ ← onPath prepared ((t.parentOfPrepared prepared).map fun _ => t)
  match Utf8.encode content with
  | .error fault => .error (.unencodable fault)
  | .ok bytes => onMove prepared p (t.placeFile p bytes)

theorem placeFile_eq_put {t t' : FileTree} {p : Text} {content : Bytes}
    (h : t.placeFile p content = .ok t') :
    ∃ l, t.lastLocation p (fun _ => .busy) = .ok l ∧ t' = (t.remove l).put l (.file content) := by
  unfold placeFile at h
  cases hl : t.lastLocation p fun _ => .busy with
  | error fault => rw [hl] at h; cases h
  | ok l =>
    rw [hl] at h
    replace h : (if Text.endsWith p "/" = true then Except.error SystemFault.notDirectory
      else if t.isDirectory l = true then .error .isDirectory
      else .ok ((t.remove l).put l (.file content))) = .ok t' := h
    split at h
    · cases h
    · split at h
      · cases h
      · cases h; exact ⟨l, rfl, rfl⟩

theorem eq_ok_of_onMove {source p : Text} {change : Except SystemFault FileTree}
    {t' : FileTree} (h : onMove source p change = .ok t') : change = .ok t' := by
  unfold onMove at h
  cases hc : checkPath p with
  | error f => rw [hc] at h; cases h
  | ok u =>
    rw [hc] at h
    cases change with
    | ok t => simpa [bind, Except.bind] using h
    | error fault => cases h

/-- A replacement that succeeds puts the bytes of the text in one place, as a new file. -/
theorem replaceText_eq_put {t t' : FileTree} {p content : Text}
    (h : t.replaceText p content = .ok t') :
    ∃ l bytes, t.lastLocation p (fun _ => .busy) = .ok l ∧ Utf8.encode content = .ok bytes ∧
      t' = (t.remove l).put l (.file bytes) := by
  unfold replaceText at h
  cases hp : onPath (t.preparedPath p) ((t.parentOfPrepared (t.preparedPath p)).map fun _ => t) with
  | error f => simp [hp, bind, Except.bind] at h
  | ok u =>
    cases he : Utf8.encode content with
    | error fault => simp [hp, he, bind, Except.bind] at h
    | ok bytes =>
      simp only [hp, he, bind, Except.bind] at h
      obtain ⟨l, hl, ht⟩ := placeFile_eq_put (eq_ok_of_onMove h)
      exact ⟨l, bytes, hl, rfl, ht⟩

end FileTree

end ModuleBuild
