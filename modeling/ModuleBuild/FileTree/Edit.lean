/-
  ModuleBuild.FileTree.Edit
  ─────────────────────────
  **EDITS OF SEVERAL STEPS.**

  An edit reads and changes the tree step by step.  It may fail on the way;
  what its earlier steps changed stays changed.

  Main results:
    * `run_ask`, `run_change` — a question leaves the tree as it is, a refused change too.
-/
import ModuleBuild.FileTree.Change

namespace ModuleBuild

/-- A computation over a file tree that may fail half-way. -/
abbrev Edit := ExceptT Failure (StateM FileTree)

namespace Edit

/-! ## §1. Steps. -/

/-- Looks at the tree. -/
def view {α : Type} (f : FileTree → α) : Edit α := do return f (← get)

/-- Looks at the tree and may fail. -/
def ask {α : Type} (f : FileTree → Except Failure α) : Edit α := do
  match f (← get) with
  | .ok a => return a
  | .error failure => throw failure

/-- Changes the tree at once, or fails and changes nothing. -/
def change (f : FileTree → Except Failure FileTree) : Edit Unit := do
  match f (← get) with
  | .ok t => set t
  | .error failure => throw failure

/-- What an edit returns, and the tree it leaves. -/
def runOn {α : Type} (e : Edit α) (t : FileTree) : Except Failure α × FileTree :=
  StateT.run (ExceptT.run e) t

theorem run_ask {α : Type} (f : FileTree → Except Failure α) (t : FileTree) :
    (ask f).runOn t = (f t, t) := by
  show runOn (match f t with | .ok a => pure a | .error failure => throw failure) t = (f t, t)
  cases f t <;> rfl

theorem run_change (f : FileTree → Except Failure FileTree) (t : FileTree) :
    (change f).runOn t
      = match f t with
        | .ok t' => (.ok (), t')
        | .error failure => (.error failure, t) := by
  show runOn (match f t with | .ok t' => set t' | .error failure => throw failure) t = _
  cases f t <;> rfl

/-! ## §2. Directories. -/

/-- The directory part and the last name of a path; slashes at its end do not count. -/
def splitLast (p : Text) : Text × Text :=
  if Path.baseName p = [] then (Path.dirName (Path.dirName p), Path.baseName (Path.dirName p))
  else (Path.dirName p, Path.baseName p)

theorem length_splitLast_lt {p : Text} (h : (splitLast p).2 ≠ []) :
    (splitLast p).1.length < p.length := by
  have h1 := Path.length_dirName_add_baseName p
  have h2 := Path.length_dirName_add_baseName (Path.dirName p)
  unfold splitLast at h ⊢
  split at h <;> rename_i hb <;> simp only [hb, if_true, if_false]
  all_goals
    have := List.length_pos_iff.2 h
    dsimp only at this
    omega

/-- Makes a directory and those above it that are missing; `existOk` says whether the directory may
be there already. -/
def makeDirectories (existOk : Bool) (p : Text) : Edit Unit := do
  let t ← get
  if _h : (splitLast p).2 ≠ [] ∧ (splitLast p).1 ≠ [] ∧ t.pathExists (splitLast p).1 = false then
    try makeDirectories existOk (splitLast p).1
    catch
      | .system .exists .. => pure ()
      | failure => throw failure
    if (splitLast p).2 = Path.here then return
  try change (·.makeDirectory p)
  catch failure =>
    if !(failure.isSystemFault && existOk && (← get).namesDirectory p) then throw failure
  termination_by p.length
  decreasing_by exact length_splitLast_lt _h.1

/-- Makes a directory, if it can be made; the result is what is wrong, if anything. -/
def tryMakeDirectories (p : Text) : Edit (Option Text) := do
  try
    makeDirectories true p
    return none
  catch failure => if failure.isSystemFault then return some failure.message else throw failure

/-- Removes a file, a link, or a directory with everything in it. -/
def removePath (p : Text) : Edit Unit := do
  let t ← get
  if t.namesDirectory p && !t.namesLink p then
    change (·.clearDirectory p)
    change (·.removeDirectory p)
  else change (·.removeFile p)

/-! ## §3. Copying. -/

/-- Whether two paths name one file or directory. -/
def sameEntry (t : FileTree) (p q : Text) : Bool :=
  match t.locate .target p, t.locate .target q with
  | .ok (.occupied l), .ok (.occupied m) => l = m
  | _, _ => false

/-- Copies the bytes of a file, through links, to a path that is no directory. -/
def copyBytes (source dest : Text) : Edit Unit := do
  ask fun _ => FileTree.checkPath source
  ask fun _ => FileTree.checkPath dest
  if ← view (sameEntry · source dest) then throw (.sameFile source dest)
  let content ← ask (·.readBytes source)
  try change (·.writeBytes dest content)
  catch
    | .system .isDirectory path target =>
      if (← get).pathExists dest then throw (.system .isDirectory path target)
      else throw (.noDirectory dest)
    | failure => throw failure

/-- Copies a file; a destination that is a directory takes it in. -/
def copyFile (source dest : Text) : Edit Unit := do
  if (← get).namesDirectory dest then copyBytes source (Path.join dest (Path.baseName source))
  else copyBytes source dest

/-- What is wrong with a directory that was to be made: nothing if it is there.  The path is not
told again. -/
def absence (source dest : Text) (t : FileTree) : List CopyFault :=
  match t.locate .target dest with
  | .ok (.occupied _) => []
  | .error (.system fault _ _) => [⟨source, dest, fault.message⟩]
  | _ => [⟨source, dest, SystemFault.noEntry.message⟩]

/-- Copies one entry of a directory, one that is a directory with `copyDirectory`; the result is what
is wrong, if anything. -/
def copyEntry (copyDirectory : Text → Text → Edit Unit) (source dest name : Text) :
    Edit (List CopyFault) := do
  let from' := Path.join source name
  let to' := Path.join dest name
  try
    if (← get).namesDirectory from' then copyDirectory from' to'
    else copyFile from' to'
    pure []
  catch
    | .copy faults => pure faults
    | failure =>
      if failure.isSystemFault then pure [⟨from', to', failure.message⟩]
      else throw failure

/-- Copies a directory to a place that is vacant, at most `depth` levels deep.  Links are copied as
what they lead to.  An entry that cannot be copied does not stop the others. -/
def copyDirectoryTo (depth : Nat) (source dest : Text) : Edit Unit := do
  let l ← ask (·.openDirectory source)
  let names := (← get).namesAt l
  makeDirectories false dest
  match depth with
  | 0 => throw (.system .nameTooLong source none)
  | below + 1 =>
    let faults ← names.toList.mapM (copyEntry (copyDirectoryTo below) source dest)
    let faults := faults.flatten ++ absence source dest (← get)
    if faults ≠ [] then throw (.copy faults)

/-- Copies a file or a directory; the directories above the destination are made if they are
missing.  A level of a directory lengthens the path, so no path that the system takes goes as deep
as the limit on its bytes. -/
def copyPath (source dest : Text) : Edit Unit := do
  ask (·.checkWorkingDir dest)
  makeDirectories true (Path.dirName ((← get).absolute dest))
  if (← get).namesDirectory source then copyDirectoryTo FileTree.pathBytesLimit source dest
  else copyFile source dest

/-- Writes a text in place of another, if it differs; tells whether it does. -/
def replaceIfChanged (p before after : Text) : Edit Bool := do
  if after = before then return false
  change (·.replaceText p after)
  return true

end Edit

end ModuleBuild
