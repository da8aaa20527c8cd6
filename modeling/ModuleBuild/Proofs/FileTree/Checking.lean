/-
  ModuleBuild.Proofs.FileTree.Checking
  ────────────────────────────────────
  **TREES THAT CAN BE CHECKED.**

  Whether a tree has no links can be computed.  So can what lies in
  directories one in the other, however many there are; and the paths that
  lead down there are as long as their names are, so there comes a file that
  is in reach while no file can be prepared beside it.

  Main results:
    * `linkFree_of_hasNoLink` — a tree without links is known as one;
    * `Forest.entryAt?_nested` — what lies in directories one in the other;
    * `not_hasRoom_of_sum` — where no file can be prepared.
-/
import Mathlib.Algebra.GroupWithZero.Nat
import ModuleBuild.Proofs.FileTree.Spot

namespace ModuleBuild

open FileTree

namespace Forest

/-! ## §1. Forests without links. -/

/-- Whether nothing in a forest is a link. -/
def hasNoLink : Forest → Bool
  | [] => true
  | (_, .file _) :: cs => hasNoLink cs
  | (_, .link _) :: _ => false
  | (_, .directory ds) :: cs => hasNoLink ds && hasNoLink cs

theorem hasNoLink_of_lookup {name : Text} {node : Node} {cs : Forest} (hcs : cs.hasNoLink = true)
    (h : cs.lookup name = some node) :
    (∀ path, node ≠ .link path) ∧ hasNoLink node.children = true := by
  induction cs with
  | nil => cases h
  | cons c cs ih =>
    obtain ⟨k, n⟩ := c
    rw [List.lookup_cons] at h
    split at h
    · cases h
      cases node with
      | file content => exact ⟨fun path => by simp, by simp [Node.children, hasNoLink]⟩
      | link path => simp [hasNoLink] at hcs
      | directory ds =>
        rw [hasNoLink, Bool.and_eq_true] at hcs
        exact ⟨fun path => by simp, hcs.1⟩
    · refine ih ?_ h
      cases n with
      | file content => rwa [hasNoLink] at hcs
      | link path => simp [hasNoLink] at hcs
      | directory ds =>
        rw [hasNoLink, Bool.and_eq_true] at hcs
        exact hcs.2

theorem linkFree_of_hasNoLink :
    ∀ {cs : Forest}, cs.hasNoLink = true → ∀ (k : Location) (path : Text),
      cs.entryAt? k ≠ some (.link path)
  | cs, _, [], path => by
    rw [show cs.entryAt? [] = some .directory from rfl]
    simp
  | cs, hcs, name :: rest, path => by
    unfold entryAt?
    rw [nodeAt?_cons]
    cases hl : cs.lookup name with
    | none => simp
    | some node =>
      obtain ⟨hnode, hchildren⟩ := hasNoLink_of_lookup hcs hl
      dsimp only
      by_cases hrest : rest = []
      · rw [if_pos hrest]
        cases node with
        | file content => simp [Node.entry]
        | link target => exact absurd rfl (hnode target)
        | directory ds => simp [Node.entry]
      · rw [if_neg hrest]
        exact linkFree_of_hasNoLink hchildren rest path

/-! ## §2. Directories one in the other. -/

/-- Directories one in the other, and a forest in the last of them. -/
def nested : List Text → Forest → Forest
  | [], cs => cs
  | n :: ns, cs => [(n, .directory (nested ns cs))]

variable {ns : List Text} {cs : Forest}

theorem allNames_nested : (nested ns cs).allNames = ns ++ cs.allNames := by
  induction ns with
  | nil => rfl
  | cons n ns ih => rw [nested, allNames_cons, Node.children, ih, allNames, List.append_nil]; rfl

theorem hasNoLink_nested : (nested ns cs).hasNoLink = cs.hasNoLink := by
  induction ns with
  | nil => rfl
  | cons n ns ih => rw [nested, hasNoLink, ih, hasNoLink, Bool.and_true]

/-- What lies below the first of the directories. -/
theorem entryAt?_nested_cons (n : Text) (k : Location) :
    (nested (n :: ns) cs).entryAt? (n :: k) = (nested ns cs).entryAt? k :=
  entryAt?_cons_of_lookup (by simp [nested]) k

theorem entryAt?_nested (k : Location) : (nested ns cs).entryAt? (ns ++ k) = cs.entryAt? k := by
  induction ns with
  | nil => rfl
  | cons n ns ih =>
    rw [List.cons_append, entryAt?_nested_cons]
    exact ih

/-- A file alone is the only one. -/
theorem eq_singleton_of_file {n : Text} {content old : Bytes} :
    ∀ {k : Location}, entryAt? [(n, .file old)] k = some (.file content) → k = [n]
  | [], h => by cases h
  | m :: rest, h => by
    unfold entryAt? at h
    rw [nodeAt?_cons, List.lookup_cons] at h
    cases hm : m == n with
    | false =>
      rw [hm] at h
      cases h
    | true =>
      rw [hm] at h
      cases rest with
      | nil => rw [eq_of_beq hm]
      | cons m' more => cases h

/-- A file in the last of the directories is a file of the forest there. -/
theorem eq_append_of_file {content : Bytes} :
    ∀ {ns : List Text} {k : Location}, (nested ns cs).entryAt? k = some (.file content) →
      ∃ k', k = ns ++ k' ∧ cs.entryAt? k' = some (.file content)
  | [], k, h => ⟨k, rfl, h⟩
  | n :: ns, [], h => by cases h
  | n :: ns, m :: k, h => by
    by_cases hm : m = n
    · subst hm
      rw [entryAt?_nested_cons] at h
      obtain ⟨k', rfl, hk'⟩ := eq_append_of_file h
      exact ⟨k', rfl, hk'⟩
    · unfold entryAt? at h
      have hno : (m == n) = false := by simpa using hm
      rw [nodeAt?_cons, nested, List.lookup_cons, hno] at h
      cases h

end Forest

namespace FileTree

/-! ## §3. Trees without links. -/

theorem linkFree_of_hasNoLink {t : FileTree} (h : t.top.hasNoLink = true) : LinkFree t :=
  Forest.linkFree_of_hasNoLink h

theorem linkFreeAt_of_hasNoLink {t : FileTree} {D : Location} {cs : Forest}
    (hD : t.nodeAt? D = some (.directory cs)) (hcs : cs.hasNoLink = true) : LinkFreeAt t D := by
  rintro _ path ⟨k, rfl⟩ he
  rw [show t.entryAt? (D ++ k) = cs.entryAt? k from Forest.entryAt?_append k hD] at he
  exact Forest.linkFree_of_hasNoLink hcs k path he

end FileTree

/-! ## §4. Long paths. -/

/-- What is written with slashes between has a byte for each of them. -/
theorem Text.sum_byteCount {ns : List Text} (hne : ns ≠ []) :
    (ns.map fun n => Utf8.byteCount n + 1).sum = Utf8.byteCount (Text.joinWith "/" ns) + 1 := by
  induction ns with
  | nil => exact absurd rfl hne
  | cons n rest ih =>
    cases rest with
    | nil => simp [Text.joinWith, List.intercalate]
    | cons m more =>
      have hslash : Utf8.byteCount "/" = 1 := by decide
      rw [List.map_cons, List.sum_cons, ih (List.cons_ne_nil _ _), Text.joinWith_cons_cons,
        FileTree.byteCount_append, FileTree.byteCount_append, hslash]
      omega

namespace Path

/-- A path from the root is at least as long as its names, each with a slash. -/
theorem sum_le_byteCount {p : Text} (hp : Straight p) (hne : names p ≠ []) :
    ((names p).map fun n => Utf8.byteCount n + 1).sum ≤ Utf8.byteCount p := by
  obtain ⟨root, hroot, hroot_ne, hwritten⟩ := hp.written
  have hone : 1 ≤ Utf8.byteCount root := by
    rcases hroot with rfl | rfl | rfl
    · exact absurd rfl hroot_ne
    · decide
    · decide
  rw [Text.sum_byteCount hne]
  conv => rhs; rw [hwritten]
  unfold Path.written
  rw [FileTree.byteCount_append]
  omega

end Path

namespace FileTree

/-- Where the names before the last are too long, no file can be prepared beside the last. -/
theorem not_hasRoom_of_sum {p n : Text} {init : List Text} (hp : Path.Straight p)
    (hnames : Path.names p = init ++ [n])
    (hlong : pathBytesLimit
      ≤ (init.map fun m => Utf8.byteCount m + 1).sum + Utf8.byteCount ".typebuild-X.tmp" + lettersNotShown) :
    ¬ HasRoom p := by
  obtain ⟨hprepared, hpreparedNames⟩ := names_preparedFor hp hnames
  have hsum := Path.sum_le_byteCount hprepared (by rw [hpreparedNames]; simp)
  rw [hpreparedNames, List.map_append, List.sum_append, List.map_singleton, List.sum_singleton] at hsum
  unfold HasRoom
  omega

/-- Whether the system takes a path from the root is a matter of the lengths of its names. -/
theorem fits_written_iff {ns : List Text} (hne : ns ≠ [])
    (hns : ∀ n ∈ ns, Path.IsName n ∧ Nameable n ∧ Utf8.byteCount n ≤ maxNameBytes) :
    Fits (Path.written "/" ns) ↔ (ns.map fun n => Utf8.byteCount n + 1).sum < pathBytesLimit := by
  have hnames : Path.names (Path.written "/" ns) = ns :=
    Path.names_written (.inr (.inl rfl)) fun n hn => (hns n hn).1.1
  have hcount : Utf8.byteCount (Path.written "/" ns) = (ns.map fun n => Utf8.byteCount n + 1).sum := by
    have hslash : Utf8.byteCount "/" = 1 := by decide
    unfold Path.written
    rw [byteCount_append, Text.sum_byteCount hne, hslash, Nat.add_comm]
  rw [← hcount]
  refine ⟨Fits.short, fun hshort => ⟨?_, hshort, ?_⟩⟩
  · rw [checkPath_eq_ok_iff, nameable_iff_names, hnames]
    exact fun n hn => (hns n hn).2.1
  · rw [hnames]
    exact fun n hn => (hns n hn).2.2

/-- A name of 253 letters. -/
def longName : Text := List.replicate 253 (CodePoint.ofChar 'd')

theorem byteCount_longName : Utf8.byteCount longName = 253 := by decide +kernel

theorem isName_longName : Path.IsName longName ∧ Utf8.nameForm longName = longName ∧ Nameable longName := by
  decide +kernel

end FileTree

end ModuleBuild
