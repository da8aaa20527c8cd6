/-
  ModuleBuild.Proofs.FileTree.Shape
  ─────────────────────────────────
  **TREES THAT DIFFER IN THE BYTES OF FILES ONLY.**

  Where a path leads, what a walk lists and where a file would be put depend
  on names, directories and links, not on what files hold.  Two trees that
  agree on all of that are alike, and every question about paths has one
  answer for both.

  Main results:
    * `follow_alike`, `lastLocation_alike` — paths lead to the same places;
    * `replaceText_file` — without links, a file is replaced where it is read, and nothing else;
    * `replaceText_alike` — a replacement is refused in both trees or in neither;
    * `walk_alike` — without links, walks list the same paths.
-/
import Mathlib.Data.List.Basic
import ModuleBuild.Proofs.FileTree.Following
import ModuleBuild.FileTree.Change
import ModuleBuild.FileTree.Walk

namespace ModuleBuild

/-! ## §1. Shapes. -/

/-- What a node is, without the bytes of a file. -/
def Entry.shape : Entry → Entry
  | .file _ => .file []
  | e => e

theorem Entry.shape_cases {e e' : Entry} (h : e.shape = e'.shape) :
    e = e' ∨ ∃ content content', e = .file content ∧ e' = .file content' := by
  cases e with
  | file content =>
    cases e' with
    | file content' => exact .inr ⟨content, content', rfl, rfl⟩
    | link path => cases h
    | directory => cases h
  | link path =>
    cases e' with
    | file content' => cases h
    | link path' => cases h; exact .inl rfl
    | directory => cases h
  | directory =>
    cases e' with
    | file content' => cases h
    | link path' => cases h
    | directory => exact .inl rfl

/-- What has the shape of a directory is one. -/
theorem Entry.eq_directory_of_shape {e : Option Entry} (h : e.map shape = some .directory) :
    e = some .directory := by
  cases e with
  | none => cases h
  | some e => cases e with
    | directory => rfl
    | file content => cases h
    | link path => cases h

namespace Forest

/-- Forests with the same names, directories and links. -/
def Alike (cs ds : Forest) : Prop :=
  ∀ l, (cs.entryAt? l).map Entry.shape = (ds.entryAt? l).map Entry.shape

/-- A forest without links. -/
def LinkFree (cs : Forest) : Prop := ∀ l path, cs.entryAt? l ≠ some (.link path)

theorem entryAt?_singleton (cs : Forest) (name : Text) :
    cs.entryAt? [name] = (cs.lookup name).map Node.entry := by
  unfold entryAt?
  rw [nodeAt?_cons]
  cases cs.lookup name <;> rfl

/-- Below a directory stands what it contains. -/
theorem nodeAt?_append {ds : Forest} (k : Location) :
    ∀ {cs : Forest} {l : Location}, cs.nodeAt? l = some (.directory ds) →
      cs.nodeAt? (l ++ k) = ds.nodeAt? k
  | cs, [], h => by
    have hcs : cs = ds := by
      injection h with h
      injection h
    rw [hcs]
    rfl
  | cs, name :: rest, h => by
    rw [nodeAt?_cons] at h
    show nodeAt? cs (name :: (rest ++ k)) = _
    rw [nodeAt?_cons]
    cases hn : cs.lookup name with
    | none =>
      rw [hn] at h
      cases h
    | some n =>
      simp only [hn] at h ⊢
      by_cases hrest : rest = []
      · rw [if_pos hrest, Option.some.injEq] at h
        subst h hrest
        cases k <;> rfl
      · have hne : rest ++ k ≠ [] := by simp [hrest]
        rw [if_neg hrest] at h
        rw [if_neg hne]
        exact nodeAt?_append k h

/-- Below a directory lies what it contains. -/
theorem entryAt?_append {ds : Forest} (k : Location) {cs : Forest} {l : Location}
    (h : cs.nodeAt? l = some (.directory ds)) : cs.entryAt? (l ++ k) = ds.entryAt? k :=
  congrArg (Option.map Node.entry) (nodeAt?_append k h)

theorem exists_of_entryAt?_directory {cs : Forest} {l : Location}
    (h : cs.entryAt? l = some .directory) : ∃ ds, cs.nodeAt? l = some (.directory ds) := by
  unfold entryAt? at h
  cases hn : cs.nodeAt? l with
  | none =>
    rw [hn] at h
    cases h
  | some n =>
    rw [hn] at h
    cases n with
    | directory ds => exact ⟨ds, rfl⟩
    | file content => cases h
    | link path => cases h

theorem entryAt?_cons_of_lookup {cs ds : Forest} {name : Text}
    (h : cs.lookup name = some (.directory ds)) (l : Location) :
    cs.entryAt? (name :: l) = ds.entryAt? l := by
  have hnode : cs.nodeAt? [name] = some (.directory ds) := by
    rw [nodeAt?_cons, h]
    rfl
  exact entryAt?_append l hnode

/-- What two alike forests have under one name. -/
theorem Alike.lookup {cs ds : Forest} (h : Alike cs ds) (name : Text) :
    (cs.lookup name).map (Entry.shape ∘ Node.entry)
      = (ds.lookup name).map (Entry.shape ∘ Node.entry) := by
  have hname := h [name]
  rw [entryAt?_singleton, entryAt?_singleton, Option.map_map, Option.map_map] at hname
  exact hname

theorem Alike.children {cs ds cs' ds' : Forest} (h : Alike cs ds) {name : Text}
    (hc : cs.lookup name = some (.directory cs')) (hd : ds.lookup name = some (.directory ds')) :
    Alike cs' ds' := by
  intro l
  rw [← entryAt?_cons_of_lookup hc, ← entryAt?_cons_of_lookup hd]
  exact h (name :: l)

theorem LinkFree.children {cs ds : Forest} (h : LinkFree cs) {name : Text}
    (hd : cs.lookup name = some (.directory ds)) : LinkFree ds := by
  intro l path
  rw [← entryAt?_cons_of_lookup hd]
  exact h (name :: l) path

theorem LinkFree.of_alike {cs ds : Forest} (hcs : LinkFree cs) (h : Alike cs ds) : LinkFree ds := by
  intro l path hl
  have hshape := h l
  rw [hl] at hshape
  cases hc : cs.entryAt? l with
  | none =>
    rw [hc] at hshape
    cases hshape
  | some e =>
    rw [hc] at hshape
    rcases Entry.shape_cases (Option.some.inj hshape) with rfl | ⟨c, c', -, hfile⟩
    · exact hcs l path hc
    · cases hfile

theorem mem_names_iff {cs : Forest} {name : Text} :
    name ∈ cs.map (·.1) ↔ cs.lookup name ≠ none := by
  induction cs with
  | nil => simp
  | cons c cs ih =>
    obtain ⟨n, node⟩ := c
    rw [List.map_cons, List.mem_cons, List.lookup_cons]
    by_cases hn : name = n
    · simp [hn]
    · have hb : (name == n) = false := by simpa using hn
      rw [hb]
      simp only [hn, false_or]
      exact ih

/-- Alike forests have the same names. -/
theorem Alike.names {cs ds : Forest} (h : Alike cs ds) :
    NameSet.ofList (cs.map (·.1)) = NameSet.ofList (ds.map (·.1)) := by
  apply NameSet.ext_mem
  intro name
  rw [NameSet.mem_ofList, NameSet.mem_ofList, mem_names_iff, mem_names_iff]
  have hname := h.lookup name
  cases hc : cs.lookup name with
  | none =>
    cases hd : ds.lookup name with
    | none => exact Iff.rfl
    | some n => rw [hc, hd] at hname; cases hname
  | some n =>
    cases hd : ds.lookup name with
    | none => rw [hc, hd] at hname; cases hname
    | some m => simp

end Forest

namespace FileTree

/-- Trees that differ in the bytes of files only. -/
structure Alike (t t' : FileTree) : Prop where
  workingDir : t.workingDir = t'.workingDir
  top : t.top.Alike t'.top

/-- A tree without links. -/
def LinkFree (t : FileTree) : Prop := t.top.LinkFree

/-- Nothing at a place or below it is a link. -/
def LinkFreeAt (t : FileTree) (D : Location) : Prop :=
  ∀ k path, D <+: k → t.entryAt? k ≠ some (.link path)

variable {t t' : FileTree}

theorem LinkFreeAt.below {D D' : Location} (h : t.LinkFreeAt D) (hD : D <+: D') : t.LinkFreeAt D' :=
  fun k path hk => h k path (hD.trans hk)

theorem LinkFree.at (h : t.LinkFree) (D : Location) : t.LinkFreeAt D := fun k path _ => h k path

theorem Alike.refl (t : FileTree) : Alike t t := ⟨rfl, fun _ => rfl⟩

theorem Alike.trans {t'' : FileTree} (h : Alike t t') (h' : Alike t' t'') : Alike t t'' :=
  ⟨h.workingDir.trans h'.workingDir, fun l => (h.top l).trans (h'.top l)⟩

/-- What lies at a place of two alike trees: nothing in both, the same in both, or files. -/
theorem Alike.entryAt? (h : Alike t t') (l : Location) :
    (t.entryAt? l = t'.entryAt? l)
      ∨ ∃ content content', t.entryAt? l = some (.file content) ∧ t'.entryAt? l = some (.file content') := by
  have hl := h.top l
  unfold FileTree.entryAt?
  cases ht : t.top.entryAt? l with
  | none =>
    cases ht' : t'.top.entryAt? l with
    | none => exact .inl rfl
    | some e => rw [ht, ht'] at hl; cases hl
  | some e =>
    cases ht' : t'.top.entryAt? l with
    | none => rw [ht, ht'] at hl; cases hl
    | some e' =>
      rw [ht, ht'] at hl
      rcases Entry.shape_cases (Option.some.inj hl) with he | ⟨c, c', he, he'⟩
      · exact .inl (by rw [he])
      · exact .inr ⟨c, c', by rw [he], by rw [he']⟩

theorem Alike.isDirectory (h : Alike t t') (l : Location) : t.isDirectory l = t'.isDirectory l := by
  unfold FileTree.isDirectory
  rcases h.entryAt? l with he | ⟨c, c', he, he'⟩
  · rw [he]
  · rw [he, he']
    rfl

/-! ## §2. Paths. -/

/-- Names lead to the same place in alike trees. -/
theorem follow_alike (h : Alike t t') (aim : Aim) :
    ∀ (slash : Bool) (links : Nat) (dir : Location) (names : List Text),
      follow t aim slash links dir names = follow t' aim slash links dir names
  | _, _, _, [] => by rw [follow_nil, follow_nil]
  | slash, links, dir, name :: rest => by
    by_cases h1 : name = Path.here
    · rw [h1, follow_here, follow_here]
      exact follow_alike h aim slash links dir rest
    by_cases h2 : name = Path.up
    · rw [h2, follow_up, follow_up]
      exact follow_alike h aim slash links dir.dropLast rest
    refine follow_named_congr h1 h2 (h.entryAt? _) (fun _ => follow_alike h aim slash links _ rest) ?_
    rintro path more - rfl slash'
    exact follow_alike h aim slash' more _ (Path.names path ++ rest)
  termination_by _ links _ names => (links, names.length)

theorem locate_alike (h : Alike t t') (aim : Aim) (p : Text) : t.locate aim p = t'.locate aim p := by
  unfold locate
  rw [h.workingDir, follow_alike h]

theorem parentOf_alike (h : Alike t t') (p : Text) : t.parentOf p = t'.parentOf p := by
  unfold parentOf
  rw [h.workingDir, follow_alike h]

theorem lastLocation_alike (h : Alike t t') (p : Text) (dots : Ending → SystemFault) :
    t.lastLocation p dots = t'.lastLocation p dots := by
  unfold lastLocation
  rw [parentOf_alike h]

theorem absolute_alike (h : Alike t t') (p : Text) : t.absolute p = t'.absolute p := by
  unfold absolute
  rw [h.workingDir]

theorem openDirectory_alike (h : Alike t t') (p : Text) : t.openDirectory p = t'.openDirectory p := by
  unfold openDirectory
  rw [locate_alike h]
  cases t'.locate .target p with
  | error failure => rfl
  | ok place =>
    cases place with
    | vacant parent name => rfl
    | occupied l => simp only [h.isDirectory]

/-! ## §3. Files that are replaced. -/

/-- In a tree without links the names that lead to a file lead to its directory and end with its
name. -/
theorem follow_file (hfree : LinkFree t) {slash : Bool} {links : Nat} {l : Location} {content : Bytes}
    (hl : t.entryAt? l = some (.file content)) :
    ∀ {names : List Text} {dir : Location}, t.entryAt? dir = some .directory →
      follow t .target slash links dir names = .ok (.occupied l) →
      ∃ init name d, names = init ++ [name] ∧ name ≠ Path.here ∧ name ≠ Path.up ∧
        ¬ maxNameBytes < Utf8.byteCount name ∧
        follow t .target true links dir init = .ok (.occupied d) ∧ l = d ++ [Utf8.nameForm name]
  | [], dir, hdir, h => by
    rw [follow_nil] at h
    cases h
    rw [hdir] at hl
    cases hl
  | name :: rest, dir, hdir, h => by
    by_cases h1 : name = Path.here
    · subst h1
      rw [follow_here] at h
      obtain ⟨init, last, d, rfl, h3, h4, h5, h6, h7⟩ := follow_file hfree hl hdir h
      exact ⟨Path.here :: init, last, d, rfl, h3, h4, h5, by rw [follow_here, h6], h7⟩
    · by_cases h2 : name = Path.up
      · subst h2
        rw [follow_up] at h
        obtain ⟨init, last, d, rfl, h3, h4, h5, h6, h7⟩ :=
          follow_file hfree hl (isDirectory_dropLast hdir) h
        exact ⟨Path.up :: init, last, d, rfl, h3, h4, h5, by rw [follow_up, h6], h7⟩
      · obtain ⟨hshort, hfinds⟩ := finds_of_follow h1 h2 h
        generalize he : t.entryAt? (dir ++ [Utf8.nameForm name]) = found at hfinds
        cases hfinds with
        -- nothing is looked up below a file, so its name is the last
        | file hrest =>
          exact ⟨[], name, dir, by rw [hrest]; rfl, h1, h2, Nat.not_lt.2 hshort, follow_nil, rfl⟩
        | directory hnext =>
          obtain ⟨init, last, d, rfl, h3, h4, h5, h6, h7⟩ := follow_file hfree hl he hnext
          refine ⟨name :: init, last, d, rfl, h3, h4, h5, ?_, h7⟩
          rw [follow_named h1 h2, if_neg (by simp), if_neg (Nat.not_lt.2 hshort), he]
          exact h6
        | link => exact absurd he (hfree _ _)
        | through => exact absurd he (hfree _ _)

/-- In a tree without links a file is replaced where it is read. -/
theorem lastLocation_of_file (hfree : LinkFree t) {p : Text} (hp : Path.isAbsolute p = true)
    {l : Location} {content : Bytes} (h : t.locate .target p = .ok (.occupied l))
    (hl : t.entryAt? l = some (.file content)) (dots : Ending → SystemFault) :
    t.lastLocation p dots = .ok l := by
  obtain ⟨-, hnil, hlong, hfollow⟩ := locate_eq_ok_iff.1 h
  rw [if_pos hp] at hfollow
  obtain ⟨init, name, d, hnames, h1, h2, h3, h4, rfl⟩ := follow_file hfree hl rfl hfollow
  have hparent : t.parentOf p = .ok d := by
    unfold parentOf
    rw [if_neg hnil, if_neg hlong, if_pos hp, hnames, List.dropLast_concat, h4]
  have hending : ending p = .named name := by
    unfold ending
    rw [hnames, List.getLast?_concat]
    simp only [h1, h2, if_false]
  unfold lastLocation
  rw [hparent, hending]
  exact if_neg h3

theorem not_prefix_dropLast {l : Location} (h : l ≠ []) : ¬ l <+: l.dropLast := by
  intro hpre
  have hle := hpre.length_le
  have hpos := List.length_pos_iff.2 h
  rw [List.length_dropLast] at hle
  omega

theorem not_prefix_of_concat (d : Location) (n : Text) : ¬ d ++ [n] <+: d := by
  intro hpre
  have hle := hpre.length_le
  rw [List.length_append, List.length_singleton] at hle
  omega

/-- **A file that is replaced where it lies has the bytes of the new text, and everything else
stays.** -/
theorem replaceText_at {p content : Text} {l : Location} {old : Bytes}
    (hlast : t.lastLocation p (fun _ => .busy) = .ok l) (hl : t.entryAt? l = some (.file old))
    (hr : t.replaceText p content = .ok t') :
    ∃ bytes, Utf8.encode content = .ok bytes ∧ t'.workingDir = t.workingDir ∧
      t'.entryAt? l = some (.file bytes) ∧ ∀ k, k ≠ l → t'.entryAt? k = t.entryAt? k := by
  obtain ⟨m, bytes, hm, hbytes, rfl⟩ := replaceText_eq_put hr
  rw [hlast] at hm
  cases hm
  have hne : l ≠ [] := by
    rintro rfl
    cases hl
  have hparent : t.entryAt? l.dropLast = some .directory := by
    obtain ⟨d, n, rfl⟩ := List.eq_nil_or_concat l |>.resolve_left hne
    rw [List.concat_eq_append] at hl ⊢
    rw [List.dropLast_concat]
    exact isDirectory_of_append (by rw [hl]; simp)
  have hparent' : (t.remove l).entryAt? l.dropLast = some .directory := by
    rw [entryAt?_remove_outside (not_prefix_dropLast hne), hparent]
  refine ⟨bytes, hbytes, by simp, entryAt?_put_self _ hne hparent', ?_⟩
  intro k hk
  by_cases hpre : l <+: k
  · -- below a file lies nothing, before and after
    obtain ⟨tail, rfl⟩ := hpre
    cases tail with
    | nil => exact absurd (List.append_nil l) hk
    | cons name rest =>
      have hself := entryAt?_put_self (.file bytes) hne hparent'
      have hnone : ∀ u : FileTree, ∀ c, u.entryAt? l = some (.file c) →
          u.entryAt? (l ++ name :: rest) = none := by
        intro u c hu
        by_contra hsome
        rw [isDirectory_of_append hsome] at hu
        cases hu
      rw [hnone _ _ hself, hnone _ _ hl]
  · rw [entryAt?_put_outside _ hpre, entryAt?_remove_outside hpre]

/-- In a tree without links it is replaced where it is read. -/
theorem replaceText_file (hfree : LinkFree t) {p content : Text} (hp : Path.isAbsolute p = true)
    {l : Location} {old : Bytes} (h : t.locate .target p = .ok (.occupied l))
    (hl : t.entryAt? l = some (.file old)) (hr : t.replaceText p content = .ok t') :
    ∃ bytes, Utf8.encode content = .ok bytes ∧ t'.workingDir = t.workingDir ∧
      t'.entryAt? l = some (.file bytes) ∧ ∀ k, k ≠ l → t'.entryAt? k = t.entryAt? k :=
  replaceText_at (lastLocation_of_file hfree hp h hl _) hl hr

/-- A tree in which one file has other bytes is alike. -/
theorem alike_of_file {l : Location} {old new : Bytes} (hdir : t'.workingDir = t.workingDir)
    (hl : t.entryAt? l = some (.file old)) (hl' : t'.entryAt? l = some (.file new))
    (hother : ∀ k, k ≠ l → t'.entryAt? k = t.entryAt? k) : Alike t t' := by
  refine ⟨hdir.symm, ?_⟩
  intro k
  show (t.entryAt? k).map Entry.shape = (t'.entryAt? k).map Entry.shape
  by_cases hk : k = l
  · rw [hk, hl, hl']
    rfl
  · rw [hother k hk]

theorem placeFile_alike (h : Alike t t') (p : Text) (bytes : Bytes) :
    (t.placeFile p bytes).map (fun _ => ()) = (t'.placeFile p bytes).map fun _ => () := by
  unfold placeFile
  rw [lastLocation_alike h]
  cases t'.lastLocation p fun _ => .busy with
  | error fault => rfl
  | ok l =>
    simp only [bind, Except.bind, h.isDirectory]
    split
    · rfl
    · split <;> rfl

/-- Whether a replacement is refused, and why, does not depend on what files hold. -/
theorem replaceText_alike (h : Alike t t') (p content : Text) :
    (t.replaceText p content).map (fun _ => ()) = (t'.replaceText p content).map fun _ => () := by
  have hprepared : t.preparedPath p = t'.preparedPath p := by
    unfold preparedPath
    rw [absolute_alike h]
  have hparent : ∀ q, t.parentOfPrepared q = t'.parentOfPrepared q := by
    intro q
    unfold parentOfPrepared
    rw [parentOf_alike h]
  unfold replaceText
  simp only [hprepared, hparent, onPath, onMove, bind, Except.bind]
  cases checkPath (t'.preparedPath p) with
  | error failure => rfl
  | ok u =>
    cases t'.parentOfPrepared (t'.preparedPath p) with
    | error fault => rfl
    | ok parent =>
      cases Utf8.encode content with
      | error fault => rfl
      | ok bytes =>
        simp only [Except.map]
        cases checkPath p with
        | error failure => rfl
        | ok u =>
          -- the last step depends on the tree, and does so in the same way
          have hplace := placeFile_alike h p bytes
          cases hl : t.placeFile p bytes with
          | error fault =>
            cases hr : t'.placeFile p bytes with
            | error fault' =>
              rw [hl, hr] at hplace
              cases hplace
              rfl
            | ok u =>
              rw [hl, hr] at hplace
              cases hplace
          | ok u =>
            cases hr : t'.placeFile p bytes with
            | error fault' =>
              rw [hl, hr] at hplace
              cases hplace
            | ok u => rfl

/-- A replacement is possible in a tree with other bytes. -/
theorem Alike.exists_replaceText {u : FileTree} (h : Alike t t') {p content : Text}
    (hr : t.replaceText p content = .ok u) : ∃ u', t'.replaceText p content = .ok u' := by
  have hboth := replaceText_alike h p content
  rw [hr] at hboth
  cases hr' : t'.replaceText p content with
  | ok u' => exact ⟨u', rfl⟩
  | error failure =>
    rw [hr'] at hboth
    cases hboth

/-! ## §4. Walks. -/

/-- Below alike directories without links a walk meets the same. -/
theorem sightAll_alike (root : Text) (ignored : NameSet) (path : Text) {cs ds : Forest}
    (hcs : cs.LinkFree) (h : cs.Alike ds) :
    sightAll t root ignored path cs = sightAll t' root ignored path ds := by
  rw [sightAll, sightAll, ← h.names]
  apply List.flatMap_congr
  intro name _
  have hname := h.lookup name
  -- by what lies under the name in the first forest; the second has the same there
  split <;> rename_i hc <;> rw [hc] at hname
  · split <;> rename_i hd <;> rw [hd] at hname
    all_goals first
      | rfl
      | cases hname
  · split <;> rename_i hd <;> rw [hd] at hname
    all_goals first
      | rfl
      | cases hname
  · rename_i target
    have hlink : cs.entryAt? [name] = some (.link target) := by
      rw [Forest.entryAt?_singleton, hc]
      rfl
    exact absurd hlink (hcs [name] target)
  · rename_i cs'
    split <;> rename_i hd <;> rw [hd] at hname
    · cases hname
    · cases hname
    · cases hname
    · rename_i ds'
      have hlt := sizeOf_lt_of_lookup hc
      have hsmaller : sizeOf cs' < sizeOf cs := by
        simp only [Node.directory.sizeOf_spec] at hlt
        omega
      simp only [sightAll_alike root ignored _ (hcs.children hc) (h.children hc hd)]
  termination_by sizeOf cs

/-- **A walk of a tree without links depends on its shape only.** -/
theorem walk_alike (h : Alike t t') (hfree : LinkFree t) (root : Text) (ignored : NameSet) :
    t.walk root ignored = t'.walk root ignored := by
  unfold walk
  simp only [absolute_alike h, openDirectory_alike h]
  cases hopen : t'.openDirectory (t'.absolute root) with
  | error failure => rfl
  | ok l =>
    have hl' := entryAt?_of_openDirectory hopen
    have hl : t.entryAt? l = some .directory := by
      rcases h.entryAt? l with he | ⟨c, c', -, he'⟩
      · rw [he, hl']
      · rw [hl'] at he'
        cases he'
    obtain ⟨cs, hcs⟩ := Forest.exists_of_entryAt?_directory hl
    obtain ⟨ds, hds⟩ := Forest.exists_of_entryAt?_directory hl'
    have hfree' : Forest.LinkFree cs := by
      intro k path
      rw [← Forest.entryAt?_append _ hcs]
      exact hfree (l ++ k) path
    have halike : Forest.Alike cs ds := by
      intro k
      rw [← Forest.entryAt?_append _ hcs, ← Forest.entryAt?_append _ hds]
      exact h.top (l ++ k)
    show Except.ok (sightAll t _ _ _ ((t.top.nodeAt? l).map Node.children |>.getD []))
      = Except.ok (sightAll t' _ _ _ ((t'.top.nodeAt? l).map Node.children |>.getD []))
    rw [hcs, hds]
    exact congrArg Except.ok (sightAll_alike _ _ _ hfree' halike)

end FileTree

end ModuleBuild
