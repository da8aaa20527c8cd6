/-
  ModuleBuild.Proofs.FileTree.Naming
  ──────────────────────────────────
  **WHERE PATHS LEAD.**

  The names of a path lead from the root or from the working directory; all
  but the last are followed, whatever an operation wants of the last one.

  Main results:
    * `leads_of_lastLocation` — where the last name of a path is looked up;
    * `place_of_locate`, `locate_last` — what is found there.
-/
import ModuleBuild.Proofs.FileTree.Settling

namespace ModuleBuild

/-! ## §1. Trees that a system can hold. -/

namespace Forest

/-- The names of everything in a forest. -/
def allNames : Forest → List Text
  | [] => []
  | (name, .file _) :: cs => name :: allNames cs
  | (name, .link _) :: cs => name :: allNames cs
  | (name, .directory ds) :: cs => name :: (allNames ds ++ allNames cs)

theorem allNames_cons (name : Text) (node : Node) (cs : Forest) :
    allNames ((name, node) :: cs) = name :: (allNames node.children ++ allNames cs) := by
  cases node <;> simp [allNames, Node.children]

theorem mem_allNames_of_lookup {name : Text} {node : Node} {cs : Forest}
    (h : cs.lookup name = some node) :
    name ∈ cs.allNames ∧ ∀ m ∈ allNames node.children, m ∈ cs.allNames := by
  induction cs with
  | nil => cases h
  | cons c cs ih =>
    obtain ⟨k, n⟩ := c
    rw [List.lookup_cons] at h
    rw [allNames_cons]
    split at h
    · rename_i hk
      have hname : name = k := by simpa using hk
      cases h
      rw [hname]
      exact ⟨List.mem_cons_self .., fun m hm => List.mem_cons_of_mem _ (List.mem_append_left _ hm)⟩
    · obtain ⟨h1, h2⟩ := ih h
      exact ⟨List.mem_cons_of_mem _ (List.mem_append_right _ h1),
        fun m hm => List.mem_cons_of_mem _ (List.mem_append_right _ (h2 m hm))⟩

/-- Every name that leads to something is one of the forest's. -/
theorem mem_allNames_of_nodeAt? {m : Text} :
    ∀ {k : Location} {cs : Forest}, cs.nodeAt? k ≠ none → m ∈ k → m ∈ cs.allNames
  | [], _, _, hm => by cases hm
  | name :: rest, cs, h, hm => by
    rw [nodeAt?_cons] at h
    cases hl : cs.lookup name with
    | none =>
      rw [hl] at h
      exact absurd rfl h
    | some node =>
      obtain ⟨h1, h2⟩ := mem_allNames_of_lookup hl
      rcases List.mem_cons.1 hm with rfl | hm
      · exact h1
      · rw [hl] at h
        have hrest : rest ≠ [] := List.ne_nil_of_mem hm
        simp only [if_neg hrest] at h
        exact h2 m (mem_allNames_of_nodeAt? h hm)

end Forest

namespace FileTree

/-- Everything in the tree has a name, and the working directory is written as the system writes
it. -/
structure Proper (t : FileTree) : Prop where
  names : ∀ k, t.entryAt? k ≠ none → ∀ m ∈ k, Path.IsName m
  workingDir : ∀ m ∈ t.workingDir, Path.IsName m ∧ Utf8.nameForm m = m

/-- A name on the way to something in a tree is one of its names. -/
theorem mem_allNames {t : FileTree} {k : Location} (hk : t.entryAt? k ≠ none) {m : Text} (hm : m ∈ k) :
    m ∈ t.top.allNames := by
  refine Forest.mem_allNames_of_nodeAt? ?_ hm
  intro hnone
  apply hk
  show (t.top.nodeAt? k).map Node.entry = none
  rw [hnone]
  rfl

/-- Whether a system can hold a tree can be checked. -/
theorem proper_of_allNames {t : FileTree} (h : ∀ m ∈ t.top.allNames, Path.IsName m)
    (hdir : ∀ m ∈ t.workingDir, Path.IsName m ∧ Utf8.nameForm m = m) : Proper t where
  names _ hk m hm := h m (mem_allNames hk hm)
  workingDir := hdir

/-- The directory from which the names of a path are followed. -/
def startOf (t : FileTree) (p : Text) : Location := if Path.isAbsolute p then [] else t.workingDir

variable {t t' : FileTree} {aim : Aim} {p : Text} {place : Place} {dir d l : Location} {n : Text}
  {ns init : List Text}

/-! ## §2. The last name of a path. -/

theorem isPart_of_mem_names {m : Text} (hm : m ∈ Path.names p) : Path.IsPart m := by
  unfold Path.names at hm
  rw [List.mem_filter] at hm
  exact ⟨by simpa using hm.2, Text.not_mem_of_mem_split hm.1⟩

theorem isName_of_mem_names {m : Text} (hm : m ∈ Path.names p) (h1 : m ≠ Path.here)
    (h2 : m ≠ Path.up) : Path.IsName m :=
  ⟨isPart_of_mem_names hm, h1, h2⟩

theorem eq_concat_of_ending (h : ending p = .named n) :
    ∃ init, Path.names p = init ++ [n] ∧ Path.IsName n := by
  unfold ending at h
  cases hlast : (Path.names p).getLast? with
  | none =>
    rw [hlast] at h
    cases h
  | some m =>
    rw [hlast] at h
    by_cases h1 : m = Path.here
    · simp only [if_pos h1] at h
      cases h
    by_cases h2 : m = Path.up
    · simp only [if_neg h1, if_pos h2] at h
      cases h
    simp only [if_neg h1, if_neg h2] at h
    cases h
    have hmem := List.mem_of_getLast? hlast
    refine ⟨(Path.names p).dropLast, ?_, isName_of_mem_names hmem h1 h2⟩
    obtain ⟨ys, hys⟩ := List.getLast?_eq_some_iff.1 hlast
    rw [hys, List.dropLast_concat]

/-- The directory in which the last name of a path is looked up is the one to which the others
lead. -/
theorem leads_of_parentOf (h : t.parentOf p = .ok d) :
    Leads t (t.startOf p) (Path.names p).dropLast d := by
  unfold parentOf at h
  split at h
  · cases h
  · split at h
    · cases h
    · split at h
      · rename_i hfollow
        cases h
        exact leads_of_follow hfollow (.inl ⟨rfl, rfl⟩)
      · cases h
      · cases h

/-- The last name of a path is looked up in the directory to which the others lead. -/
theorem lastLocation_eq_ok {dots : Ending → SystemFault} (h : t.lastLocation p dots = .ok l) :
    ∃ d n, t.parentOf p = .ok d ∧ ending p = .named n ∧ ¬ maxNameBytes < Utf8.byteCount n
      ∧ l = d ++ [Utf8.nameForm n] := by
  unfold lastLocation at h
  cases hparent : t.parentOf p with
  | error fault =>
    rw [hparent] at h
    cases h
  | ok d =>
    rw [hparent] at h
    cases hend : ending p with
    | named n =>
      simp only [hend] at h
      split at h
      · cases h
      · rename_i hshort
        cases h
        exact ⟨d, n, rfl, rfl, hshort, rfl⟩
    | _ =>
      simp only [hend] at h
      cases h

/-- **Where the last name of a path is looked up.** -/
theorem leads_of_lastLocation {dots : Ending → SystemFault} (h : t.lastLocation p dots = .ok l) :
    ∃ init n d, Path.names p = init ++ [n] ∧ Path.IsName n ∧ Leads t (t.startOf p) init d ∧
      l = d ++ [Utf8.nameForm n] := by
  obtain ⟨d, n, hparent, hend, -, rfl⟩ := lastLocation_eq_ok h
  obtain ⟨init, hnames, hn⟩ := eq_concat_of_ending hend
  have hd := leads_of_parentOf hparent
  rw [hnames, List.dropLast_concat] at hd
  exact ⟨init, n, d, hnames, hn, hd, rfl⟩

/-- The names of a path to a directory lead there. -/
theorem leads_of_locate (h : t.locate aim p = .ok (.occupied d))
    (hd : t.entryAt? d = some .directory) : Leads t (t.startOf p) (Path.names p) d :=
  leads_of_follow (locate_eq_ok_iff.1 h).2.2.2 (.inr hd)

theorem locate_of_namesDirectory (h : t.namesDirectory p = true) :
    ∃ d, t.locate .target p = .ok (.occupied d) ∧ t.entryAt? d = some .directory := by
  unfold namesDirectory find? at h
  rw [decide_eq_true_eq] at h
  split at h
  · rename_i d hlocate
    exact ⟨d, hlocate, h⟩
  · cases h

/-! ## §3. What is found under the last name. -/

section Last

variable (hnames : Path.names p = init ++ [n]) (hn : Path.IsName n)
  (hslash : Text.endsWith p "/" = false)

include hnames hn hslash

/-- **What is found under the last name of a path**, once the others lead to a directory: nothing,
what has the name, or what its link leads to. -/
theorem place_of_locate (hd : Leads t (t.startOf p) init d) (h : t.locate aim p = .ok place) :
    (t.entryAt? (d ++ [Utf8.nameForm n]) = none ∧ place = .vacant d (Utf8.nameForm n))
      ∨ (t.entryAt? (d ++ [Utf8.nameForm n]) ≠ none ∧ place = .occupied (d ++ [Utf8.nameForm n]))
      ∨ (aim ≠ .name ∧ ∃ path, t.entryAt? (d ++ [Utf8.nameForm n]) = some (.link path)) := by
  obtain ⟨-, -, -, hfollow⟩ := locate_eq_ok_iff.1 h
  rw [hnames, hslash] at hfollow
  obtain ⟨d', links, hleads, -, hlast⟩ := exists_of_follow_concat hfollow
  have hdet := hleads.det hd
  subst hdet
  -- only the last name is looked up here; the others lead to one directory
  obtain ⟨-, hfinds⟩ := finds_of_follow hn.2.1 hn.2.2 hlast
  generalize t.entryAt? (d' ++ [Utf8.nameForm n]) = found at hfinds
  cases hfinds with
  | vacant => exact .inl ⟨rfl, rfl⟩
  | file => exact .inr (.inl ⟨by simp, rfl⟩)
  | directory hend =>
    rw [follow_nil] at hend
    cases hend
    exact .inr (.inl ⟨by simp, rfl⟩)
  | link => exact .inr (.inl ⟨by simp, rfl⟩)
  | @through path _ _ hlast =>
    exact .inr (.inr ⟨fun haim => hlast ⟨rfl, haim, rfl⟩, path, rfl⟩)

/-- **What lies under the last name of a path is found there**, if the system takes the path at
all, be it in a tree that has grown. -/
theorem locate_last {aim' : Aim} {e : Entry} (hgrows : Grows t t')
    (hdir : t'.workingDir = t.workingDir) (hd : Leads t (t.startOf p) init d)
    (h : t'.locate aim' p = .ok place) (he : t.entryAt? (d ++ [Utf8.nameForm n]) = some e)
    (haim : aim = .name ∨ ∀ path, e ≠ .link path) :
    t.locate aim p = .ok (.occupied (d ++ [Utf8.nameForm n])) := by
  obtain ⟨hcheck, hnil, hlong, hfollow⟩ := locate_eq_ok_iff.1 h
  refine locate_eq_ok_iff.2 ⟨hcheck, hnil, hlong, ?_⟩
  rw [hdir] at hfollow
  rw [hnames, hslash] at hfollow ⊢
  -- the names before the last are followed in both trees alike
  have hsame := hd.follow_eq hgrows maxLinks
  obtain ⟨d', links, hleads, hd', hlast⟩ := exists_of_follow_concat hfollow
  have hdet := hleads.det (hd.grows hgrows)
  subst hdet
  obtain ⟨hshort, -⟩ := finds_of_follow hn.2.1 hn.2.2 hlast
  obtain ⟨links', hlast'⟩ := exists_follow_concat (hsame.trans hd') aim false n
  refine hlast'.trans ?_
  rw [follow_named hn.2.1 hn.2.2, if_neg (by simp), if_neg (Nat.not_lt.2 hshort), he]
  cases e with
  | file content => rfl
  | directory => exact follow_nil
  | link path =>
    rcases haim with haim | hlink
    · simp only [haim, and_self, if_true]
    · exact absurd rfl (hlink path)

/-- A path that the system takes has a last location, in the directory to which its other names
lead. -/
theorem lastLocation_of_locate (dots : Ending → SystemFault) (h : t.locate aim p = .ok place) :
    ∃ d, Leads t (t.startOf p) init d ∧ t.lastLocation p dots = .ok (d ++ [Utf8.nameForm n]) := by
  obtain ⟨-, hnil, hlong, hfollow⟩ := locate_eq_ok_iff.1 h
  rw [hnames, hslash] at hfollow
  obtain ⟨d, links, hleads, hd, hlast⟩ := exists_of_follow_concat hfollow
  obtain ⟨hshort, -⟩ := finds_of_follow hn.2.1 hn.2.2 hlast
  have hparent : t.parentOf p = .ok d := by
    unfold parentOf
    rw [if_neg hnil, if_neg hlong, hnames, List.dropLast_concat, hd]
  have hending : ending p = .named n := by
    unfold ending
    rw [hnames, List.getLast?_concat]
    simp only [hn.2.1, hn.2.2, if_false]
  refine ⟨d, hleads, ?_⟩
  unfold lastLocation
  rw [hparent, hending]
  exact if_neg (Nat.not_lt.2 hshort)

end Last

/-- Where a path starts depends on the working directory only. -/
theorem startOf_eq (hdir : t'.workingDir = t.workingDir) (p : Text) : t'.startOf p = t.startOf p := by
  unfold startOf
  rw [hdir]

theorem startOf_written {root : Text} (hroot : Path.IsRoot root) (hns : ∀ m ∈ ns, Path.IsPart m) :
    t.startOf (Path.written root ns) = if root = [] then t.workingDir else [] := by
  unfold startOf
  rw [Path.isAbsolute_written hroot hns]
  by_cases h : root = [] <;> simp [h]

end FileTree

end ModuleBuild
