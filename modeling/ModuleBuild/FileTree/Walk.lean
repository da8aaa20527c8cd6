/-
  ModuleBuild.FileTree.Walk
  ─────────────────────────
  **THE PRUNED WALK.**

  A walk lists what lies below a directory, depth first and by name, each
  directory before its contents.  A directory is pruned when its name, its
  path from the root of the walk, or its absolute path is in the ignored set;
  `.git` and `node_modules` always are.  A link is listed when it leads to
  something within the root, and never descended into.

  Main results:
    * `isIgnored_of_name` — a name in the set is enough;
    * `listed_of_leaving` — what leaves the tree is not listed.
-/
import ModuleBuild.FileTree.RealPath

namespace ModuleBuild

/-- The directories that every walk prunes. -/
def alwaysIgnored : List Text := [".git", "node_modules"]

/-- Whether a directory is ignored by its name, its path from the root of the walk or, where it is
known, its absolute path. -/
def isIgnored (ignored : NameSet) (name relative : Text) (absolute : Option Text) : Bool :=
  ignored.contains name || ignored.contains relative ||
    match absolute with
    | none => false
    | some p => ignored.contains (Path.normalize p)

theorem isIgnored_of_name {ignored : NameSet} {name : Text} (h : name ∈ ignored)
    (relative : Text) (absolute : Option Text) :
    isIgnored ignored name relative absolute = true := by
  simp [isIgnored, NameSet.contains_iff.2 h]

namespace FileTree

/-- What a walk meets. -/
inductive Sighting
  | listed (path : Text) (isDirectory : Bool)
  /-- An ignored directory. -/
  | pruned (path : Text)
  /-- A link that leads out of the tree. -/
  | leaving (path : Text)
  /-- A directory that cannot be read. -/
  | unreadable (path : Text) (failure : Failure)

/-- The path and kind of what is listed. -/
def Sighting.listed? : Sighting → Option (Text × Bool)
  | .listed p d => some (p, d)
  | _ => none

theorem listed_of_leaving (p : Text) : (Sighting.leaving p).listed? = none := rfl

/-- A path as the walk from `root` compares it. -/
def relativePath (root p : Text) : Text := Path.toForwardSlashes (Path.relativeTo root p)

/-- What a walk meets at a link. -/
def sightLink (t : FileTree) (root : Text) (ignored : NameSet) (name p : Text) : List Sighting :=
  match t.isWithin p root with
  | .ok true =>
    if t.namesDirectory p then
      if isIgnored ignored name (relativePath root p) (some p) then [] else [.listed p true]
    else [.listed p false]
  | _ => [.leaving p]

theorem sizeOf_lt_of_lookup {cs : Forest} {name : Text} {n : Node}
    (h : cs.lookup name = some n) : sizeOf n < sizeOf cs := by
  induction cs with
  | nil => simp at h
  | cons c cs ih =>
    obtain ⟨m, node⟩ := c
    simp only [List.lookup_cons] at h
    split at h
    · cases h; simp; omega
    · have := ih h; simp; omega

/-- What a walk from `root` meets below the directory at `path` that contains `cs`. -/
def sightAll (t : FileTree) (root : Text) (ignored : NameSet) (path : Text) (cs : Forest) :
    List Sighting :=
  (NameSet.ofList (cs.map (·.1))).toList.flatMap fun name =>
    let p := Path.join path name
    match _h : cs.lookup name with
    | none => []
    | some (.file _) => [.listed p false]
    | some (.link _) => sightLink t root ignored name p
    | some (.directory ds) =>
      if isIgnored ignored name (relativePath root p) (some p) then [.pruned p]
      else .listed p true :: sightAll t root ignored p ds
  termination_by sizeOf cs
  decreasing_by
    have := sizeOf_lt_of_lookup _h
    simp at this
    omega

/-- What a walk of a directory meets. -/
def walk (t : FileTree) (root : Text) (ignored : NameSet) : Except Failure (List Sighting) :=
  let start := t.absolute root
  match t.openDirectory start with
  | .ok l =>
    .ok (sightAll t start (ignored.insertMany alwaysIgnored) start
      ((t.nodeAt? l).map Node.children |>.getD []))
  | .error failure =>
    if failure.isSystemFault then .ok [.unreadable start failure] else .error failure

end FileTree

end ModuleBuild
