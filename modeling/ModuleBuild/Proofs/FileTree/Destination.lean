/-
  ModuleBuild.Proofs.FileTree.Destination
  ───────────────────────────────────────
  **WHERE SOMETHING PUT AT A PATH WOULD LIE.**

  The absolute form of a path leads to the same place as the path, as long as
  the directory from which the path starts is there.

  The destination of a path is where something put there would lie: its last
  name, in the directory where the names before it settle.  A normal path ends
  in a name, or in dots, or is the root; what the latter two lead to is their
  destination.

  Main results:
    * `exists_absolute` — the absolute form of a path leads where the path does;
    * `Destination.det` — a path has one destination;
    * `destination_of_dotted` — the destination of a path that ends in dots.
-/
import ModuleBuild.Proofs.FileTree.Naming
import ModuleBuild.Proofs.Path.Normal
import ModuleBuild.Proofs.Path.NameForm

namespace ModuleBuild

namespace FileTree

variable {t t' : FileTree} {aim : Aim} {p : Text} {place : Place} {dir d l : Location} {n : Text}
  {ns init : List Text}

/-! ## §1. Ways up. -/

/-- Names that lead up lead towards the root. -/
theorem leads_ups {ups : Nat} :
    ∀ {dir : Location}, Leads t dir (List.replicate ups Path.up ++ ns) d ↔
      Leads t (dir.take (dir.length - ups)) ns d := by
  induction ups with
  | zero =>
    intro dir
    rw [Nat.sub_zero, List.take_length]
    rfl
  | succ ups ih =>
    intro dir
    have htake : dir.dropLast.take (dir.dropLast.length - ups) = dir.take (dir.length - (ups + 1)) := by
      rw [List.dropLast_eq_take, List.take_take, List.length_take]
      congr 1
      omega
    rw [List.replicate_succ, List.cons_append, ← htake, ← ih]
    constructor
    · intro h
      cases h with
      | up h => exact h
      | into _ h2 => exact absurd rfl h2
      | through _ h2 => exact absurd rfl h2
    · exact .up

/-- Names that lead to a directory lead there from one. -/
theorem Leads.isDirectory_start (h : Leads t dir ns d) (hns : ∀ m ∈ ns, Path.IsName m)
    (hd : t.entryAt? d = some .directory) : t.entryAt? dir = some .directory := by
  cases ns with
  | nil =>
    cases h
    exact hd
  | cons m ns => exact isDirectory_of_append (h.ne_none (hns m (List.mem_cons_self ..)))

/-! ## §2. Absolute forms. -/

/-- **The absolute form of a path leads where the path does**, in every tree with the same working
directory: to directories always, and back if the path starts from one. -/
theorem exists_absolute (hproper : Proper t) {root : Text} (hroot : Path.IsRoot root)
    (htidy : Path.Tidy (root ≠ []) (init ++ [n])) (hn : Path.IsName n) :
    ∃ root' init', t.absolute (Path.written root (init ++ [n])) = Path.written root' (init' ++ [n]) ∧
      Path.IsRoot root' ∧ root' ≠ [] ∧ (∀ m ∈ init', Path.IsName m) ∧
      ∀ (u : FileTree) (d : Location), u.workingDir = t.workingDir →
        (Leads u (u.startOf (Path.written root (init ++ [n]))) init d →
          u.entryAt? d = some .directory → Leads u [] init' d) ∧
        (u.entryAt? (u.startOf (Path.written root (init ++ [n]))) = some .directory →
          Leads u [] init' d → Leads u (u.startOf (Path.written root (init ++ [n]))) init d) := by
  obtain ⟨ups, ms, rfl, hms, hrooted⟩ := htidy.concat hn
  by_cases hrel : root = []
  · -- a relative path: its names go on from a part of the working directory
    subst hrel
    refine ⟨"/", t.workingDir.take (t.workingDir.length - ups) ++ ms, ?_, .inr (.inl rfl),
      by simp [Path.slash_text], ?_, ?_⟩
    · have hms' : ∀ m ∈ ms ++ [n], Path.IsName m := by
        intro m hm
        rcases List.mem_append.1 hm with hm | hm
        · exact hms m hm
        · rw [List.mem_singleton.1 hm]
          exact hn
      rw [List.append_assoc, List.append_assoc]
      exact absolute_written (fun m hm => (hproper.workingDir m hm).1) hms' (by simp)
    · intro m hm
      rcases List.mem_append.1 hm with hm | hm
      · exact (hproper.workingDir m (List.mem_of_mem_take hm)).1
      · exact hms m hm
    · intro u d hdir
      have hstart := startOf_written (t := u) hroot htidy.isPart
      rw [if_pos rfl] at hstart
      rw [hstart, leads_ups, hdir]
      have hcanon : ∀ m ∈ t.workingDir.take (t.workingDir.length - ups),
          Path.IsName m ∧ Utf8.nameForm m = m :=
        fun m hm => hproper.workingDir m (List.mem_of_mem_take hm)
      constructor
      · intro h hd
        exact (leads_append hcanon (h.isDirectory_start hms hd)).append h
      · intro hwd h
        have hbase : Leads u [] (t.workingDir.take (t.workingDir.length - ups))
            (t.workingDir.take (t.workingDir.length - ups)) :=
          leads_append hcanon (isDirectory_of_above hwd (List.take_prefix ..))
        obtain ⟨mid, h1, h2⟩ := h.split rfl
        rw [hbase.det h1]
        exact h2
  · -- an absolute path is its own absolute form
    have hzero := hrooted (by simpa using hrel)
    subst hzero
    refine ⟨root, ms, absolute_of_isAbsolute hroot htidy hrel, hroot, hrel, hms, ?_⟩
    intro u d _
    have hstart := startOf_written (t := u) hroot htidy.isPart
    rw [if_neg hrel] at hstart
    rw [hstart]
    exact ⟨fun h _ => h, fun _ h => h⟩

/-- The names of a path that is written with things and a last name. -/
theorem names_written_concat {root : Text} (hroot : Path.IsRoot root)
    (hinit : ∀ m ∈ init, Path.IsName m) (hn : Path.IsName n) :
    Path.names (Path.written root (init ++ [n])) = init ++ [n] :=
  Path.names_written hroot (List.forall_mem_append.2
    ⟨fun m hm => (hinit m hm).1, List.forall_mem_singleton.2 hn.1⟩)

/-! ## §3. Destinations. -/

/-- Where something put at a path would lie: its last name is not followed, and the names before it
settle. -/
inductive Destination (t : FileTree) (p : Text) : Location → Prop
  | root : Path.names (t.absolute p) = [] → Destination t p []
  | named {init : List Text} {n : Text} {l : Location} :
      Path.names (t.absolute p) = init ++ [n] → Settles t [] init l →
      Destination t p (l ++ [Utf8.nameForm n])

/-- **A path has one destination.** -/
theorem Destination.det {l' : Location} (h : Destination t p l) (h' : Destination t p l') : l = l' := by
  cases h with
  | root hnames =>
    cases h' with
    | root => rfl
    | named hnames' =>
      rw [hnames] at hnames'
      simp at hnames'
  | named hnames hsettles =>
    cases h' with
    | root hnames' =>
      rw [hnames] at hnames'
      simp at hnames'
    | named hnames' hsettles' =>
      rw [hnames] at hnames'
      obtain ⟨rfl, hlast⟩ := List.append_inj' hnames' rfl
      cases hlast
      rw [hsettles.det hsettles']

/-! ## §4. Paths that end in dots. -/

/-- The normal paths without a last name to put something at. -/
inductive Dotted : Text → Prop
  | here : Dotted Path.here
  | ups (ups : Nat) : Dotted (Path.written [] (List.replicate (ups + 1) Path.up))
  | root {root : Text} : Path.IsRoot root → root ≠ [] → Dotted root

/-- A normal path ends in a name or not. -/
theorem dotted_or_named (q : Text) :
    Dotted (Path.normalize q)
      ∨ ∃ root init n, Path.normalize q = Path.written root (init ++ [n]) ∧ Path.IsRoot root ∧
          Path.Tidy (root ≠ []) (init ++ [n]) ∧ Path.IsName n := by
  rcases Path.normalize_cases q with hhere | ⟨root, ns, hns, hroot, htidy, hne⟩
  · rw [hhere]
    exact .inl .here
  · rw [hns]
    obtain ⟨ups, ms, rfl, hms, hrooted⟩ := htidy
    rcases List.eq_nil_or_concat ms with rfl | ⟨init, n, rfl⟩
    · rw [List.append_nil] at hne ⊢
      refine .inl ?_
      by_cases hrel : root = []
      · subst hrel
        cases ups with
        | zero => exact absurd hne (by simp)
        | succ ups => exact .ups ups
      · rw [hrooted (by simpa using hrel), List.replicate_zero, Path.written_nil]
        exact .root hroot hrel
    · rw [List.concat_eq_append] at hms ⊢
      rw [← List.append_assoc]
      exact .inr ⟨root, _, n, rfl, hroot, ⟨ups, init ++ [n], List.append_assoc .., hms, hrooted⟩,
        hms n (by simp)⟩

theorem Dotted.names (h : Dotted p) : ∀ m ∈ Path.names p, m = Path.here ∨ m = Path.up := by
  intro m hm
  cases h with
  | here =>
    have hone : Path.names Path.here = [Path.here] := by decide
    rw [hone, List.mem_singleton] at hm
    exact .inl hm
  | ups ups =>
    rw [Path.names_written (.inl rfl)] at hm
    · exact .inr (List.eq_of_mem_replicate hm)
    · intro x hx
      rw [List.eq_of_mem_replicate hx]
      exact Path.isPart_up
  | root hroot hne =>
    have hnil : Path.names (Path.written p []) = [] := Path.names_written hroot (by simp)
    rw [Path.written_nil] at hnil
    rw [hnil] at hm
    cases hm

/-- Dots lead to a directory, and to the same one whatever is asked of the path. -/
theorem follow_dotted (hns : ∀ m ∈ ns, m = Path.here ∨ m = Path.up)
    (hdir : t.entryAt? dir = some .directory) :
    ∃ d, t.entryAt? d = some .directory ∧
      ∀ aim slash links, follow t aim slash links dir ns = .ok (.occupied d) := by
  induction ns generalizing dir with
  | nil => exact ⟨dir, hdir, fun _ _ _ => follow_nil⟩
  | cons n ns ih =>
    have htail : ∀ m ∈ ns, m = Path.here ∨ m = Path.up :=
      fun m hm => hns m (List.mem_cons_of_mem n hm)
    rcases hns n (List.mem_cons_self ..) with rfl | rfl
    · obtain ⟨d, hd, hfollow⟩ := ih htail hdir
      exact ⟨d, hd, fun aim slash links => by rw [follow_here, hfollow]⟩
    · obtain ⟨d, hd, hfollow⟩ := ih htail (isDirectory_dropLast hdir)
      exact ⟨d, hd, fun aim slash links => by rw [follow_up, hfollow]⟩

/-- A path that ends in dots leads to something whenever the system takes it. -/
theorem pathOccupied_of_dotted (hdots : Dotted p) (hstart : t.entryAt? (t.startOf p) = some .directory)
    (h : t'.locate aim p = .ok place) : t.pathOccupied p = true := by
  obtain ⟨hcheck, hnil, hlong, -⟩ := locate_eq_ok_iff.1 h
  obtain ⟨d, hd, hfollow⟩ := follow_dotted hdots.names hstart
  have hlocate : t.locate .name p = .ok (.occupied d) :=
    locate_eq_ok_iff.2 ⟨hcheck, hnil, hlong, hfollow ..⟩
  unfold pathOccupied findLink?
  rw [hlocate]
  simp only [hd, Option.isSome_some]

/-- The destination of a path whose absolute form leads straight down. -/
theorem destination_of_straight (hnames : Path.names (t.absolute p) = l)
    (hl : ∀ m ∈ l, Path.IsName m ∧ Utf8.nameForm m = m) (hdir : t.entryAt? l = some .directory) :
    Destination t p l := by
  rcases List.eq_nil_or_concat l with rfl | ⟨init, n, rfl⟩
  · exact .root hnames
  · rw [List.concat_eq_append] at hnames hl hdir ⊢
    have hinit : ∀ m ∈ init, Path.IsName m ∧ Utf8.nameForm m = m := fun m hm => hl m (by simp [hm])
    have hleads : Leads t [] init init :=
      leads_append hinit (isDirectory_of_above hdir (List.prefix_append ..))
    have hdest : Destination t p (init ++ [Utf8.nameForm n]) := .named hnames hleads.settles
    rwa [(hl n (by simp)).2] at hdest

/-- **The destination of a path that ends in dots** is the directory to which it leads. -/
theorem destination_of_dotted (hproper : Proper t) (hdots : Dotted p)
    (hl : Leads t (t.startOf p) (Path.names p) l) (hdir : t.entryAt? l = some .directory) :
    Destination t p l := by
  have hwd : ∀ m ∈ t.workingDir, Path.IsName m := fun m hm => (hproper.workingDir m hm).1
  have hslash : Path.IsRoot ("/" : Text) := .inr (.inl rfl)
  cases hdots with
  | here =>
    have hone : Path.names Path.here = [Path.here] := by decide
    have hrel : t.startOf Path.here = t.workingDir := rfl
    rw [hone, hrel] at hl
    have heq : l = t.workingDir := by
      cases hl with
      | here hl =>
        cases hl
        rfl
      | into h => exact absurd rfl h
      | through h => exact absurd rfl h
    subst heq
    refine destination_of_straight ?_ hproper.workingDir hdir
    rw [absolute_here hwd, Path.names_written hslash (isName_parts hwd)]
  | ups ups =>
    have hups : ∀ m ∈ List.replicate (ups + 1) Path.up, Path.IsPart m := by
      intro m hm
      rw [List.eq_of_mem_replicate hm]
      exact Path.isPart_up
    rw [Path.names_written (.inl rfl) hups, startOf_written (.inl rfl) hups, if_pos rfl,
      ← List.append_nil (List.replicate (ups + 1) Path.up), leads_ups] at hl
    cases hl
    -- each name leads one directory up, so what is left of the working directory is its front
    have hcanon : ∀ m ∈ t.workingDir.take (t.workingDir.length - (ups + 1)),
        Path.IsName m ∧ Utf8.nameForm m = m :=
      fun m hm => hproper.workingDir m (List.mem_of_mem_take hm)
    refine destination_of_straight ?_ hcanon hdir
    have habs : t.absolute (Path.written [] (List.replicate (ups + 1) Path.up ++ []))
        = Path.written "/" (t.workingDir.take (t.workingDir.length - (ups + 1)) ++ []) :=
      absolute_written hwd (by simp) (by simp)
    rw [List.append_nil, List.append_nil] at habs
    rw [habs, Path.names_written hslash fun m hm => (hcanon m hm).1.1]
  | root hroot hne =>
    have hempty : ∀ m ∈ ([] : List Text), Path.IsPart m := by simp
    have hnil := Path.names_written hroot hempty
    have hstart := startOf_written (t := t) hroot hempty
    have habs : t.absolute (Path.written p []) = Path.written p [] :=
      absolute_of_isAbsolute hroot ⟨0, [], rfl, by simp, fun _ => rfl⟩ hne
    rw [Path.written_nil] at hnil hstart habs
    rw [if_neg hne] at hstart
    rw [hnil, hstart] at hl
    cases hl
    exact .root (by rw [habs, hnil])

end FileTree

end ModuleBuild
