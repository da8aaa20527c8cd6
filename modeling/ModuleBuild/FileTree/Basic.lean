/-
  ModuleBuild.FileTree.Basic
  ──────────────────────────
  **FILE TREES.**

  A file tree is a forest of named nodes below the root: files with their
  bytes, links with the path they hold, and directories.  A location is the
  list of names that lead from the root down to a node; what lies there, seen
  without its contents, is an entry.  The names of a directory have no order
  of their own: they are listed as a set of names.

  The tree also knows the directory from which relative paths start, and the
  file that the program holds open, which may lose its name while it is open.

  Main results:
    * `entryAt?_put_self`, `entryAt?_put_outside` — putting a node changes its place only;
    * `entryAt?_remove_self`, `entryAt?_remove_outside` — so does removing one;
    * `isDirectory_of_append` — whatever lies below a location lies in a directory.
-/
import ModuleBuild.Text.NameSet
import ModuleBuild.Text.Utf8

namespace ModuleBuild

/-! ## §1. Nodes and locations. -/

/-- What has a name in a directory. -/
inductive Node
  | file (content : Bytes)
  | link (target : Text)
  | directory (children : List (Text × Node))

/-- Nodes with their names; of two nodes with one name only the first counts. -/
abbrev Forest := List (Text × Node)

/-- The names that lead from the root down to a node. -/
abbrev Location := List Text

/-- What a node is, without what a directory contains. -/
inductive Entry
  | file (content : Bytes)
  | link (target : Text)
  | directory
  deriving DecidableEq

namespace Node

/-- What a node is. -/
def entry : Node → Entry
  | .file content => .file content
  | .link target => .link target
  | .directory _ => .directory

/-- What a directory contains; other nodes contain nothing. -/
def children : Node → Forest
  | .directory cs => cs
  | _ => []

/-- A directory that contains nothing. -/
def emptyDirectory : Node := .directory []

end Node

namespace Forest

/-- The node at a location. -/
def nodeAt? : Forest → Location → Option Node
  | cs, [] => some (.directory cs)
  | cs, name :: rest =>
    match cs.lookup name with
    | none => none
    | some n => if rest = [] then some n else nodeAt? n.children rest

/-- A forest with one name given to a node, or to none. -/
def assign (name : Text) (node : Option Node) (cs : Forest) : Forest :=
  match node with
  | none => cs.filter (·.1 ≠ name)
  | some n => (name, n) :: cs.filter (·.1 ≠ name)

/-- A forest with the node at `name :: rest` changed; nothing changes where the directory for it is
missing. -/
def alter (f : Option Node → Option Node) (name : Text) : List Text → Forest → Forest
  | [], cs => assign name (f (cs.lookup name)) cs
  | next :: rest, cs =>
    match cs.lookup name with
    | some (.directory ds) => assign name (some (.directory (alter f next rest ds))) cs
    | _ => cs

theorem lookup_filter_of_ne {name k : Text} (h : k ≠ name) (cs : Forest) :
    (cs.filter (·.1 ≠ name)).lookup k = cs.lookup k := by
  induction cs with
  | nil => rfl
  | cons c cs ih =>
    obtain ⟨n, node⟩ := c
    by_cases hn : n = name
    · subst hn
      have hk : (k == n) = false := by simpa using h
      simp [List.lookup_cons, hk] at ih ⊢
      exact ih
    · by_cases hk : k = n
      · subst hk
        simp [hn]
      · have hk' : (k == n) = false := by simpa using hk
        simp [hn, List.lookup_cons, hk'] at ih ⊢
        exact ih

theorem lookup_filter_self (name : Text) (cs : Forest) :
    (cs.filter (·.1 ≠ name)).lookup name = none := by
  induction cs with
  | nil => rfl
  | cons c cs ih =>
    obtain ⟨n, node⟩ := c
    by_cases hn : n = name
    · simpa [hn] using ih
    · have hk : (name == n) = false := by simpa using Ne.symm hn
      simp [hn, List.lookup_cons, hk] at ih ⊢
      exact ih

@[simp] theorem lookup_assign_self (name : Text) (node : Option Node) (cs : Forest) :
    (assign name node cs).lookup name = node := by
  cases node with
  | none => exact lookup_filter_self name cs
  | some n => simp [assign]

theorem lookup_assign_of_ne {name k : Text} (h : k ≠ name) (node : Option Node) (cs : Forest) :
    (assign name node cs).lookup k = cs.lookup k := by
  cases node with
  | none => exact lookup_filter_of_ne h cs
  | some n =>
    have hk : (k == name) = false := by simpa using h
    simp only [assign, List.lookup_cons, hk]
    exact lookup_filter_of_ne h cs

/-- What lies at a location. -/
def entryAt? (cs : Forest) (l : Location) : Option Entry := (cs.nodeAt? l).map Node.entry

@[simp] theorem entryAt?_nil (cs : Forest) : cs.entryAt? [] = some .directory := rfl

theorem nodeAt?_cons (cs : Forest) (name : Text) (rest : Location) :
    cs.nodeAt? (name :: rest)
      = match cs.lookup name with
        | none => none
        | some n => if rest = [] then some n else nodeAt? n.children rest := rfl

/-- Changing a node changes nothing outside it. -/
theorem entryAt?_alter_outside (f : Option Node → Option Node) {name : Text}
    {rest : List Text} {cs : Forest} {k : Location} (h : ¬ (name :: rest) <+: k) :
    (alter f name rest cs).entryAt? k = cs.entryAt? k := by
  induction rest generalizing name cs k with
  | nil =>
    cases k with
    | nil => rfl
    | cons m k =>
      have hm : m ≠ name := fun e => h (by simp [e])
      simp [alter, entryAt?, nodeAt?_cons, lookup_assign_of_ne hm]
  | cons next rest ih =>
    unfold alter
    split
    · rename_i ds hds
      cases k with
      | nil => rfl
      | cons m k =>
        by_cases hm : m = name
        · subst hm
          have hk : ¬ (next :: rest) <+: k := fun e => h (by simpa using e)
          have := @ih next ds k hk
          simp only [entryAt?, nodeAt?_cons, lookup_assign_self, hds] at this ⊢
          by_cases hn : k = []
          · simp [hn, Node.entry]
          · simpa [hn, Node.children] using this
        · simp [entryAt?, nodeAt?_cons, lookup_assign_of_ne hm]
    · rfl

/-- A changed node is what the change makes of it, if there is a directory to hold it. -/
theorem nodeAt?_alter_self (f : Option Node → Option Node) {name : Text} {rest : List Text}
    {cs : Forest} (h : cs.entryAt? (name :: rest).dropLast = some .directory) :
    (alter f name rest cs).nodeAt? (name :: rest) = f (cs.nodeAt? (name :: rest)) := by
  induction rest generalizing name cs with
  | nil =>
    simp only [alter, nodeAt?_cons, lookup_assign_self]
    cases hl : cs.lookup name with
    | none => cases hf : f none <;> simp
    | some n => cases hf : f (some n) <;> simp [hf]
  | cons next rest ih =>
    simp only [List.dropLast_cons_cons, entryAt?, nodeAt?_cons] at h
    cases hl : cs.lookup name with
    | none => simp [hl] at h
    | some n =>
      have hd : ∃ ds, n = .directory ds := by
        cases n with
        | directory ds => exact ⟨ds, rfl⟩
        | file c =>
          cases hr : (next :: rest).dropLast <;>
            simp [hl, hr, Node.entry, Node.children, nodeAt?] at h
        | link t =>
          cases hr : (next :: rest).dropLast <;>
            simp [hl, hr, Node.entry, Node.children, nodeAt?] at h
      obtain ⟨ds, rfl⟩ := hd
      have h' : entryAt? ds (next :: rest).dropLast = some .directory := by
        cases hr : (next :: rest).dropLast with
        | nil => rfl
        | cons a b => simpa [hl, hr, Node.children, entryAt?] using h
      have := ih h'
      rw [nodeAt?_cons cs, hl]
      simp only [alter, hl]
      rw [nodeAt?_cons, lookup_assign_self]
      simpa [Node.children] using this

/-- The locations below a forest at which a link lies, counted. -/
def linkCount : Forest → Nat
  | [] => 0
  | (_, .file _) :: cs => linkCount cs
  | (_, .link _) :: cs => linkCount cs + 1
  | (_, .directory ds) :: cs => linkCount ds + linkCount cs

end Forest

/-! ## §2. Trees. -/

/-- The file that the program holds open. -/
inductive OpenFile
  | closed
  /-- It lies at a location. -/
  | named (location : Location)
  /-- It was removed while it was open: what is written to it is lost. -/
  | nameless
  deriving DecidableEq

/-- What is left of an open file when what lies at a location and below it goes. -/
def OpenFile.without (l : Location) : OpenFile → OpenFile
  | .named k => if l <+: k then .nameless else .named k
  | f => f

/-- A forest below the root, the directory from which relative paths start, and the file that the
program holds open. -/
structure FileTree where
  top : Forest
  workingDir : Location
  openFile : OpenFile := .closed

namespace FileTree

/-- The node at a location. -/
def nodeAt? (t : FileTree) (l : Location) : Option Node := t.top.nodeAt? l

/-- What lies at a location. -/
def entryAt? (t : FileTree) (l : Location) : Option Entry := t.top.entryAt? l

/-- Whether a directory lies at a location. -/
def isDirectory (t : FileTree) (l : Location) : Bool := t.entryAt? l = some .directory

/-- The names in the directory at a location. -/
def namesAt (t : FileTree) (l : Location) : NameSet :=
  match t.nodeAt? l with
  | some n => NameSet.ofList (n.children.map (·.1))
  | none => .empty

/-- The tree with a node put at a location, in place of what lies there.  A file that is open there
stays open and has the new content. -/
def put (t : FileTree) (l : Location) (n : Node) : FileTree :=
  match l with
  | [] => t
  | name :: rest =>
    { t with
      top := t.top.alter (fun _ => some n) name rest
      openFile := if t.openFile = .named l then t.openFile else t.openFile.without l }

/-- The tree without what lies at a location. -/
def remove (t : FileTree) (l : Location) : FileTree :=
  match l with
  | [] => t
  | name :: rest =>
    { t with
      top := t.top.alter (fun _ => none) name rest
      openFile := t.openFile.without l }

@[simp] theorem workingDir_put (t : FileTree) (l : Location) (n : Node) :
    (t.put l n).workingDir = t.workingDir := by
  cases l <;> rfl

@[simp] theorem workingDir_remove (t : FileTree) (l : Location) :
    (t.remove l).workingDir = t.workingDir := by
  cases l <;> rfl

@[simp] theorem entryAt?_root (t : FileTree) : t.entryAt? [] = some .directory := rfl

/-- Putting a node changes nothing outside its place. -/
theorem entryAt?_put_outside {t : FileTree} {l k : Location} (n : Node) (h : ¬ l <+: k) :
    (t.put l n).entryAt? k = t.entryAt? k := by
  cases l with
  | nil => rfl
  | cons name rest => exact Forest.entryAt?_alter_outside _ h

/-- A node put into a directory lies there. -/
theorem entryAt?_put_self {t : FileTree} {l : Location} (n : Node) (hl : l ≠ [])
    (h : t.entryAt? l.dropLast = some .directory) : (t.put l n).entryAt? l = some n.entry := by
  cases l with
  | nil => exact absurd rfl hl
  | cons name rest =>
    simp only [entryAt?, put, Forest.entryAt?] at h ⊢
    rw [Forest.nodeAt?_alter_self _ h]
    rfl

/-- Removing a node changes nothing outside it. -/
theorem entryAt?_remove_outside {t : FileTree} {l k : Location} (h : ¬ l <+: k) :
    (t.remove l).entryAt? k = t.entryAt? k := by
  cases l with
  | nil => rfl
  | cons name rest => exact Forest.entryAt?_alter_outside _ h

/-- Nothing lies where a node was removed. -/
theorem entryAt?_remove_self {t : FileTree} {l : Location} (hl : l ≠ [])
    (h : t.entryAt? l.dropLast = some .directory) : (t.remove l).entryAt? l = none := by
  cases l with
  | nil => exact absurd rfl hl
  | cons name rest =>
    simp only [entryAt?, remove, Forest.entryAt?] at h ⊢
    rw [Forest.nodeAt?_alter_self _ h]
    rfl

/-- What lies below a location lies in a directory. -/
theorem isDirectory_of_append {t : FileTree} {l : Location} {name : Text} {rest : List Text}
    (h : t.entryAt? (l ++ name :: rest) ≠ none) : t.entryAt? l = some .directory := by
  obtain ⟨top, wd⟩ := t
  simp only [entryAt?] at h ⊢
  induction l generalizing top with
  | nil => rfl
  | cons m l ih =>
    simp only [Forest.entryAt?, List.cons_append, Forest.nodeAt?_cons] at h ⊢
    cases hl : top.lookup m with
    | none => simp [hl] at h
    | some n =>
      cases l with
      | nil =>
        cases n with
        | directory ds => rfl
        | file c => simp [hl, Node.children, Forest.nodeAt?] at h
        | link c => simp [hl, Node.children, Forest.nodeAt?] at h
      | cons a l =>
        have := ih n.children (by simpa [hl, Forest.entryAt?] using h)
        simpa [Forest.entryAt?] using this

end FileTree

end ModuleBuild
