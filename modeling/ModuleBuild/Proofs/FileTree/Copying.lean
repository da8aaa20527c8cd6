/-
  ModuleBuild.Proofs.FileTree.Copying
  ───────────────────────────────────
  **COPYING INTO ONE PLACE.**

  A copy reads the tree through links and writes below one place only: the
  directory of its destination is there, nothing at the destination is a link,
  and what it makes on the way down are files and directories.  So no write is
  led elsewhere, whatever the source is, and whether or not the copy succeeds.

  Main results:
    * `copyFile_within` — a file is copied within its destination;
    * `copyDirectoryTo_within` — so is a directory, level by level.
-/
import ModuleBuild.Proofs.FileTree.Making

namespace ModuleBuild

open FileTree

namespace FileTree

variable {t t' : FileTree} {D : Location}

/-! ## §1. Changes within a place. -/

/-- A tree that differs from another at a place and below it only, where directories and links
stay and no links appear. -/
structure Within (D : Location) (t t' : FileTree) : Prop where
  workingDir : t'.workingDir = t.workingDir
  proper : Proper t → Proper t'
  outside : ∀ k, ¬ D <+: k → t'.entryAt? k = t.entryAt? k
  grows : Grows t t'
  linkFreeAt : t.LinkFreeAt D → t'.LinkFreeAt D

theorem Within.refl (D : Location) (t : FileTree) : Within D t t :=
  ⟨rfl, id, fun _ _ => rfl, .refl t, id⟩

theorem Within.trans {t'' : FileTree} (h : Within D t t') (h' : Within D t' t'') : Within D t t'' where
  workingDir := h'.workingDir.trans h.workingDir
  proper := h'.proper ∘ h.proper
  outside k hk := (h'.outside k hk).trans (h.outside k hk)
  grows := h.grows.trans h'.grows
  linkFreeAt := h'.linkFreeAt ∘ h.linkFreeAt

/-- What stays within a place stays within every place above it. -/
theorem Within.above {D' : Location} (h : Within D' t t') (hD : D <+: D') : Within D t t' where
  workingDir := h.workingDir
  proper := h.proper
  outside k hk := h.outside k fun hpre => hk (hD.trans hpre)
  grows := h.grows
  linkFreeAt := by
    intro hfree k path hk
    by_cases hpre : D' <+: k
    · exact h.linkFreeAt (hfree.below hD) k path hpre
    · rw [h.outside k hpre]
      exact hfree k path hk

/-- A file that is written in a directory, in place of a file or of nothing. -/
theorem within_put_file {d : Location} {m : Text} {content : Bytes} (hm : Path.IsName m)
    (hd : t.entryAt? d = some .directory)
    (hl : t.entryAt? (d ++ [m]) = none ∨ ∃ old, t.entryAt? (d ++ [m]) = some (.file old)) :
    Within (d ++ [m]) t (t.put (d ++ [m]) (.file content)) where
  workingDir := workingDir_put ..
  proper := fun h => h.put hm hd rfl
  outside := fun k hk => entryAt?_put_outside _ hk
  grows := by
    intro k e he hfile
    rw [entryAt?_put_leaf hd rfl]
    by_cases hk : k = d ++ [m]
    · -- what was there, if anything, was a file
      rw [hk] at he
      rcases hl with hnone | ⟨old, hold⟩
      · rw [hnone] at he
        cases he
      · rw [hold] at he
        cases he
        exact absurd rfl (hfile old)
    · have hpre : ¬ d ++ [m] <+: k := by
        intro hpre
        have hdir := isDirectory_of_below (ne_none_of_eq_some he) hpre (Ne.symm hk)
        rcases hl with hnone | ⟨old, hold⟩
        · rw [hnone] at hdir
          cases hdir
        · rw [hold] at hdir
          cases hdir
      rw [if_neg hk, if_neg hpre, he]
  linkFreeAt := by
    intro _ k path hk
    rw [entryAt?_put_leaf hd rfl]
    split
    · simp [Node.entry]
    · simp

/-- What is in a directory has its name. -/
theorem isName_of_mem_namesAt {l : Location} {n : Text} (h : Proper t)
    (hl : t.entryAt? l = some .directory) (hn : n ∈ (t.namesAt l).toList) : Path.IsName n :=
  h.names (l ++ [n]) (entryAt?_of_mem_namesAt hl hn) n (by simp)

/-- A file to be written lies under the last name of its path, unless a link has the name. -/
theorem eq_of_fileAt {p : Text} {init : List Text} {n : Text} {d l : Location} {old : Option Bytes}
    (hnames : Path.names p = init ++ [n]) (hn : Path.IsName n)
    (hslash : Text.endsWith p "/" = false) (hd : Leads t (t.startOf p) init d)
    (hlink : ∀ path, t.entryAt? (d ++ [Utf8.nameForm n]) ≠ some (.link path))
    (h : t.fileAt p = .ok (l, old)) :
    l = d ++ [Utf8.nameForm n] ∧ (t.entryAt? l = none ∨ ∃ content, t.entryAt? l = some (.file content)) := by
  unfold fileAt at h
  cases hlocate : t.locate .file p with
  | error failure =>
    rw [hlocate] at h
    cases h
  | ok place =>
    rw [hlocate] at h
    rcases place_of_locate hnames hn hslash hd hlocate with ⟨hnone, rfl⟩ | ⟨-, rfl⟩ | ⟨-, path, hpath⟩
    · cases h
      exact ⟨rfl, .inl hnone⟩
    · dsimp only at h
      split at h
      · rename_i content hcontent
        cases h
        exact ⟨rfl, .inr ⟨content, hcontent⟩⟩
      · cases h
    · exact absurd hpath (hlink path)

end FileTree

namespace Edit

variable {t : FileTree}

/-! ## §2. Files. -/

/-- Copying bytes writes what is read to one file, or fails and writes nothing. -/
theorem copyBytes_cases (source dest : Text) (t : FileTree) :
    (∃ failure, (copyBytes source dest).runOn t = (.error failure, t))
      ∨ ∃ l old content, t.readBytes source = .ok content ∧ t.fileAt dest = .ok (l, old) ∧
          (copyBytes source dest).runOn t = (.ok (), t.put l (.file content)) := by
  unfold copyBytes
  rw [runOn_bind, run_ask]
  cases checkPath source with
  | error failure => exact .inl ⟨failure, rfl⟩
  | ok u =>
    dsimp only
    rw [runOn_bind, run_ask]
    cases checkPath dest with
    | error failure => exact .inl ⟨failure, rfl⟩
    | ok u =>
      dsimp only
      rw [runOn_bind, runOn_view]
      dsimp only
      split
      · exact .inl ⟨_, rfl⟩
      · rw [runOn_bind, run_ask]
        cases hread : t.readBytes source with
        | error failure => exact .inl ⟨failure, rfl⟩
        | ok content =>
          dsimp only
          rw [runOn_tryCatch, run_change]
          unfold writeBytes
          cases hfile : t.fileAt dest with
          | ok place => exact .inr ⟨place.1, place.2, content, rfl, rfl, rfl⟩
          | error failure =>
            refine .inl ?_
            -- the failure is told in other words, at most
            dsimp only [Except.map]
            split
            · rw [runOn_bind, runOn_get]
              dsimp only
              split
              · exact ⟨_, rfl⟩
              · exact ⟨_, rfl⟩
            · exact ⟨_, rfl⟩

/-- A path at which something can be put: its last name is looked up in a directory. -/
structure Landing (t : FileTree) (root : Text) (init : List Text) (n : Text) (d : Location) :
    Prop where
  proper : Proper t
  isRoot : Path.IsRoot root
  tidy : Path.Tidy (root ≠ []) (init ++ [n])
  isName : Path.IsName n
  start : t.entryAt? (t.startOf (Path.written root (init ++ [n]))) = some .directory
  leads : Leads t (t.startOf (Path.written root (init ++ [n]))) init d

namespace Landing

variable {root : Text} {init : List Text} {n : Text} {d : Location}

theorem names (h : Landing t root init n d) :
    Path.names (Path.written root (init ++ [n])) = init ++ [n] :=
  Path.names_written h.isRoot h.tidy.isPart

theorem not_slash (h : Landing t root init n d) :
    Text.endsWith (Path.written root (init ++ [n])) "/" = false :=
  Path.not_endsWith_written h.isName.1

theorem isDirectory (h : Landing t root init n d) : t.entryAt? d = some .directory :=
  h.leads.isDirectory h.start

theorem grows {t' : FileTree} (h : Landing t root init n d) (hproper : Proper t')
    (hdir : t'.workingDir = t.workingDir) (hgrows : Grows t t') : Landing t' root init n d where
  proper := hproper
  isRoot := h.isRoot
  tidy := h.tidy
  isName := h.isName
  start := by
    rw [startOf_eq hdir]
    exact hgrows.directory h.start
  leads := by
    rw [startOf_eq hdir]
    exact h.leads.grows hgrows

theorem within {t' : FileTree} {D : Location} (h : Landing t root init n d) (hw : Within D t t') :
    Landing t' root init n d :=
  h.grows (hw.proper h.proper) hw.workingDir hw.grows

/-- One level down, once a directory is there. -/
theorem child {c : Text} (h : Landing t root init n d) (hc : Path.IsName c)
    (hd : t.entryAt? (d ++ [Utf8.nameForm n]) = some .directory) :
    Landing t root (init ++ [n]) c (d ++ [Utf8.nameForm n]) := by
  have htidy : Path.Tidy (root ≠ []) (init ++ [n] ++ [c]) := by
    obtain ⟨ups, ms, rfl, hms, hrooted⟩ := h.tidy.concat h.isName
    refine ⟨ups, ms ++ [n] ++ [c], by simp, ?_, hrooted⟩
    intro m hm
    simp only [List.mem_append, List.mem_singleton] at hm
    rcases hm with (hm | rfl) | rfl
    · exact hms m hm
    · exact h.isName
    · exact hc
  have hstart : t.startOf (Path.written root (init ++ [n] ++ [c]))
      = t.startOf (Path.written root (init ++ [n])) := by
    rw [startOf_written h.isRoot htidy.isPart, startOf_written h.isRoot h.tidy.isPart]
  refine ⟨h.proper, h.isRoot, htidy, hc, ?_, ?_⟩
  · rw [hstart]
    exact h.start
  · rw [hstart]
    exact h.leads.append (.into h.isName.2.1 h.isName.2.2 hd (.nil _))

/-- The path of a name in a directory. -/
theorem join {c : Text} (h : Landing t root init n d) (hc : Path.IsName c) :
    Path.join (Path.written root (init ++ [n])) c = Path.written root (init ++ [n] ++ [c]) :=
  Path.join_written h.isRoot h.tidy.isPart hc.1

end Landing

section

variable {root : Text} {init : List Text} {n : Text} {d : Location}

/-- Bytes are copied within their destination if it is no link. -/
theorem copyBytes_within (source : Text) (h : Landing t root init n d)
    (hlink : t.LinkFreeAt (d ++ [Utf8.nameForm n])) :
    Within (d ++ [Utf8.nameForm n]) t
      ((copyBytes source (Path.written root (init ++ [n]))).runOn t).2 := by
  rcases copyBytes_cases source (Path.written root (init ++ [n])) t with
    ⟨failure, hfail⟩ | ⟨l, old, content, -, hfile, hput⟩
  · rw [hfail]
    exact .refl _ t
  · obtain ⟨rfl, hl⟩ := eq_of_fileAt h.names h.isName h.not_slash h.leads
      (fun path => hlink _ path (List.prefix_refl _)) hfile
    rw [hput]
    exact within_put_file (Utf8.isName_nameForm h.isName) h.isDirectory hl

/-- A destination that is no link and names a directory is one. -/
theorem Landing.isDirectory_of_names (h : Landing t root init n d)
    (hlink : t.LinkFreeAt (d ++ [Utf8.nameForm n]))
    (hdir : t.namesDirectory (Path.written root (init ++ [n])) = true) :
    t.entryAt? (d ++ [Utf8.nameForm n]) = some .directory := by
  obtain ⟨l, hlocate, hl⟩ := locate_of_namesDirectory hdir
  rcases place_of_locate h.names h.isName h.not_slash h.leads hlocate with
    ⟨-, hplace⟩ | ⟨-, hplace⟩ | ⟨-, path, hpath⟩
  · cases hplace
  · cases hplace
    exact hl
  · exact absurd hpath (hlink _ path (List.prefix_refl _))

/-- **A file is copied within its destination**, if that is no link; where the destination is a
directory, it takes the file in under a name. -/
theorem copyFile_within (source : Text) (h : Landing t root init n d)
    (hlink : t.LinkFreeAt (d ++ [Utf8.nameForm n]))
    (hsource : t.entryAt? (d ++ [Utf8.nameForm n]) = none ∨ Path.IsName (Path.baseName source)) :
    Within (d ++ [Utf8.nameForm n]) t
      ((copyFile source (Path.written root (init ++ [n]))).runOn t).2 := by
  unfold copyFile
  rw [runOn_bind, runOn_get]
  dsimp only
  split
  · rename_i hdir
    have hl := h.isDirectory_of_names hlink hdir
    rcases hsource with hnone | hbase
    · rw [hnone] at hl
      cases hl
    · rw [h.join hbase]
      have hbelow := List.prefix_append (d ++ [Utf8.nameForm n])
        [Utf8.nameForm (Path.baseName source)]
      exact (copyBytes_within source (h.child hbase hl) (hlink.below hbelow)).above hbelow
  · exact copyBytes_within source h hlink

/-- A file that is copied to a vacant place lies there. -/
theorem copyFile_lands {source : Text} {t' : FileTree} (h : Landing t root init n d)
    (hnone : t.entryAt? (d ++ [Utf8.nameForm n]) = none)
    (hrun : (copyFile source (Path.written root (init ++ [n]))).runOn t = (.ok (), t')) :
    t'.entryAt? (d ++ [Utf8.nameForm n]) ≠ none := by
  have hlink : t.LinkFreeAt (d ++ [Utf8.nameForm n]) := by
    intro k path hk
    rw [entryAt?_eq_none_of_below hnone hk]
    simp
  unfold copyFile at hrun
  rw [runOn_bind, runOn_get] at hrun
  dsimp only at hrun
  split at hrun
  · rename_i hdir
    rw [h.isDirectory_of_names hlink hdir] at hnone
    cases hnone
  · rcases copyBytes_cases source (Path.written root (init ++ [n])) t with
      ⟨failure, hfail⟩ | ⟨l, old, content, -, hfile, hput⟩
    · rw [hfail] at hrun
      cases hrun
    · obtain ⟨rfl, -⟩ := eq_of_fileAt h.names h.isName h.not_slash h.leads
        (fun path => hlink _ path (List.prefix_refl _)) hfile
      rw [hput] at hrun
      cases hrun
      rw [entryAt?_put_leaf h.isDirectory rfl, if_pos rfl]
      simp

end

/-! ## §3. Directories. -/

/-- Steps that each keep to a place keep to it one after the other. -/
theorem mapM_within {α β : Type} {D : Location} (ready : FileTree → Prop)
    (hready : ∀ t t', ready t → Within D t t' → ready t') (step : α → Edit β) :
    ∀ (items : List α), (∀ item ∈ items, ∀ t, ready t → Within D t ((step item).runOn t).2) →
      ∀ t, ready t → Within D t ((items.mapM step).runOn t).2
  | [], _, t, _ => .refl D t
  | item :: items, hstep, t, ht => by
    rw [List.mapM_cons, runOn_bind]
    have hfirst := hstep item (List.mem_cons_self ..) t ht
    rcases hrun : (step item).runOn t with ⟨r, t1⟩
    rw [hrun] at hfirst
    cases r with
    | error failure => exact hfirst
    | ok b =>
      dsimp only
      rw [runOn_bind]
      have hrest := mapM_within ready hready step items
        (fun i hi => hstep i (List.mem_cons_of_mem item hi)) t1 (hready t t1 ht hfirst)
      rcases hrun' : (items.mapM step).runOn t1 with ⟨r', t2⟩
      rw [hrun'] at hrest
      cases r' with
      | error failure => exact hfirst.trans hrest
      | ok bs => exact hfirst.trans hrest

/-- Making the directory of a destination changes the destination only, and leaves no link there. -/
theorem makeDirectories_within {root : Text} {init : List Text} {n : Text} {d : Location}
    {r : Except Failure Unit} {t' : FileTree} (h : Landing t root init n d)
    (hrun : (makeDirectories false (Path.written root (init ++ [n]))).runOn t = (r, t')) :
    Within (d ++ [Utf8.nameForm n]) t t' ∧
      (r = .ok () → t.entryAt? (d ++ [Utf8.nameForm n]) = none ∧
        t'.entryAt? (d ++ [Utf8.nameForm n]) = some .directory ∧
        t'.LinkFreeAt (d ++ [Utf8.nameForm n])) := by
  obtain ⟨hmade, hnew, hok⟩ := makeDirectories_last h.isRoot h.tidy h.start h.leads hrun
  refine ⟨⟨hmade.workingDir, hmade.proper, ?_, hmade.extends.grows, ?_⟩, ?_⟩
  · intro k hk
    rcases hnew k with heq | ⟨rfl, -⟩
    · exact heq
    · exact absurd (List.prefix_refl _) hk
  · intro hfree k path hk
    rcases hnew k with heq | ⟨-, -, hdir⟩
    · rw [heq]
      exact hfree k path hk
    · rw [hdir]
      simp
  · intro hr
    obtain ⟨hnone, hleads⟩ := hok hr
    refine ⟨hnone, hleads.isDirectory (hmade.extends _ _ h.start), ?_⟩
    -- nothing was there, so nothing is but the new directory
    intro k path hk
    rcases hnew k with heq | ⟨-, -, hdir⟩
    · rw [heq, entryAt?_eq_none_of_below hnone hk]
      simp
    · rw [hdir]
      simp

/-- An entry of a directory is copied within the destination of the directory, if the levels below
are. -/
theorem copyEntry_within {copyDirectory : Text → Text → Edit Unit} {root : Text} {init : List Text}
    {n : Text} {d : Location}
    (hbelow : ∀ {t : FileTree} (source : Text) {init : List Text} {n : Text} {d : Location},
      Landing t root init n d → Within (d ++ [Utf8.nameForm n]) t
        ((copyDirectory source (Path.written root (init ++ [n]))).runOn t).2)
    (source : Text) {name : Text} (hname : Path.IsName name) (h : Landing t root init n d)
    (hdir : t.entryAt? (d ++ [Utf8.nameForm n]) = some .directory)
    (hfree : t.LinkFreeAt (d ++ [Utf8.nameForm n])) :
    Within (d ++ [Utf8.nameForm n]) t
      ((copyEntry copyDirectory source (Path.written root (init ++ [n])) name).runOn t).2 := by
  have hchild := h.child hname hdir
  have hpre := List.prefix_append (d ++ [Utf8.nameForm n]) [Utf8.nameForm name]
  unfold copyEntry
  dsimp only
  rw [h.join hname, tree_tryCatch]
  · rw [runOn_bind, runOn_get]
    dsimp only
    split
    · rw [tree_bind_pure]
      exact (hbelow (Path.join source name) hchild).above hpre
    · have hbase : Path.IsName (Path.baseName (Path.join source name)) := by
        rw [Path.baseName_join _ hname.1]
        exact hname
      rw [tree_bind_pure]
      exact (copyFile_within _ hchild (hfree.below hpre) (.inr hbase)).above hpre
  · -- what is wrong is told, and nothing else happens
    intro failure u
    split
    · rfl
    · split <;> rfl

/-- The entries of a directory are copied within the destination of the directory, if the levels
below are. -/
theorem copyEntries_within {copyDirectory : Text → Text → Edit Unit} {root : Text} {init : List Text}
    {n : Text} {d : Location}
    (hbelow : ∀ {t : FileTree} (source : Text) {init : List Text} {n : Text} {d : Location},
      Landing t root init n d → Within (d ++ [Utf8.nameForm n]) t
        ((copyDirectory source (Path.written root (init ++ [n]))).runOn t).2)
    (source : Text) {names : List Text} (hnames : ∀ name ∈ names, Path.IsName name)
    (h : Landing t root init n d) (hdir : t.entryAt? (d ++ [Utf8.nameForm n]) = some .directory)
    (hfree : t.LinkFreeAt (d ++ [Utf8.nameForm n])) :
    Within (d ++ [Utf8.nameForm n]) t
      ((names.mapM (copyEntry copyDirectory source (Path.written root (init ++ [n])))).runOn t).2 :=
  -- the invariant of the entries: the directory is there, and holds no links
  mapM_within
    (fun u => Landing u root init n d ∧ u.entryAt? (d ++ [Utf8.nameForm n]) = some .directory ∧
      u.LinkFreeAt (d ++ [Utf8.nameForm n]))
    (fun _ _ ⟨hland, hd, hf⟩ hw => ⟨hland.within hw, hw.grows.directory hd, hw.linkFreeAt hf⟩)
    _ names
    (fun name hname _ ⟨hland, hd, hf⟩ =>
      copyEntry_within hbelow source (hnames name hname) hland hd hf)
    t ⟨h, hdir, hfree⟩

/-- What is left of copying a directory, once the destination is made. -/
def copyContents (depth : Nat) (source dest : Text) (names : NameSet) : Edit Unit :=
  match depth with
  | 0 => throw (.system .nameTooLong source none)
  | below + 1 => do
    let faults ← names.toList.mapM (copyEntry (copyDirectoryTo below) source dest)
    let faults := faults.flatten ++ absence source dest (← get)
    if faults ≠ [] then throw (.copy faults)

/-- A directory is copied if it opens and the destination can be made. -/
theorem runOn_copyDirectoryTo (depth : Nat) (source dest : Text) (t : FileTree) :
    (copyDirectoryTo depth source dest).runOn t
      = match t.openDirectory source with
        | .error failure => (.error failure, t)
        | .ok l =>
          match (makeDirectories false dest).runOn t with
          | (.error failure, t1) => (.error failure, t1)
          | (.ok _, t1) => (copyContents depth source dest (t.namesAt l)).runOn t1 := by
  unfold copyDirectoryTo
  rw [runOn_bind, run_ask]
  cases t.openDirectory source with
  | error failure => rfl
  | ok l =>
    dsimp only
    rw [runOn_bind, runOn_get]
    dsimp only
    rw [runOn_bind]
    rcases (makeDirectories false dest).runOn t with ⟨failure | u, t1⟩
    · rfl
    · cases depth <;> rfl

/-- The contents are copied entry by entry; the copy succeeds if none of them reports a fault. -/
theorem runOn_copyContents (below : Nat) (source dest : Text) (names : NameSet) (t : FileTree) :
    (copyContents (below + 1) source dest names).runOn t
      = match (names.toList.mapM (copyEntry (copyDirectoryTo below) source dest)).runOn t with
        | (.error failure, t') => (.error failure, t')
        | (.ok faults, t') =>
          if faults.flatten ++ absence source dest t' ≠ [] then
            (.error (.copy (faults.flatten ++ absence source dest t')), t')
          else (.ok (), t') := by
  unfold copyContents
  rw [runOn_bind]
  rcases (names.toList.mapM (copyEntry (copyDirectoryTo below) source dest)).runOn t with
    ⟨failure | faults, t'⟩
  · rfl
  · dsimp only
    rw [runOn_bind, runOn_get]
    dsimp only
    split <;> rfl

/-- The contents are copied within the destination, if what is below the entries is. -/
theorem copyContents_within (depth : Nat) {root : Text} {init : List Text} {n : Text} {d : Location}
    (hbelow : ∀ below, depth = below + 1 → ∀ {u : FileTree} (source : Text) {init : List Text}
      {n : Text} {d : Location}, Landing u root init n d → Within (d ++ [Utf8.nameForm n]) u
        ((copyDirectoryTo below source (Path.written root (init ++ [n]))).runOn u).2)
    (source : Text) {names : NameSet} (hnames : ∀ name ∈ names.toList, Path.IsName name)
    (h : Landing t root init n d) (hdir : t.entryAt? (d ++ [Utf8.nameForm n]) = some .directory)
    (hfree : t.LinkFreeAt (d ++ [Utf8.nameForm n])) :
    Within (d ++ [Utf8.nameForm n]) t
      ((copyContents depth source (Path.written root (init ++ [n])) names).runOn t).2 := by
  cases depth with
  | zero => exact .refl _ t
  | succ below =>
    have hentries := copyEntries_within (fun source _ _ _ hland => hbelow below rfl source hland) source
      hnames h hdir hfree
    rw [runOn_copyContents]
    rcases hrun : (names.toList.mapM
      (copyEntry (copyDirectoryTo below) source (Path.written root (init ++ [n])))).runOn t with
      ⟨failure | faults, t'⟩
    · rw [hrun] at hentries
      exact hentries
    · rw [hrun] at hentries
      dsimp only
      split <;> exact hentries

/-- **A directory is copied within its destination**, which was vacant, and is a directory, if the copy
succeeds.  By induction on the levels that may be copied. -/
theorem copyDirectoryTo_within (depth : Nat) :
    ∀ {t : FileTree} (source : Text) {root : Text} {init : List Text} {n : Text} {d : Location},
      Landing t root init n d →
      Within (d ++ [Utf8.nameForm n]) t
        ((copyDirectoryTo depth source (Path.written root (init ++ [n]))).runOn t).2 ∧
      (((copyDirectoryTo depth source (Path.written root (init ++ [n]))).runOn t).1 = .ok () →
        t.entryAt? (d ++ [Utf8.nameForm n]) = none ∧
          ((copyDirectoryTo depth source (Path.written root (init ++ [n]))).runOn t).2.entryAt?
            (d ++ [Utf8.nameForm n]) = some .directory) := by
  induction depth using Nat.strong_induction_on with
  | _ depth ih =>
    intro t source root init n d h
    rw [runOn_copyDirectoryTo]
    cases hopen : t.openDirectory source with
    | error failure => exact ⟨.refl _ t, fun hok => by cases hok⟩
    | ok l =>
      dsimp only
      rcases hrun : (makeDirectories false (Path.written root (init ++ [n]))).runOn t with ⟨r, t1⟩
      obtain ⟨hmade, hok⟩ := makeDirectories_within h hrun
      cases r with
      | error failure => exact ⟨hmade, fun hok => by cases hok⟩
      | ok u =>
        obtain ⟨hnone, hdir, hfree⟩ := hok rfl
        have hnames : ∀ name ∈ (t.namesAt l).toList, Path.IsName name := fun name hname =>
          isName_of_mem_namesAt h.proper (entryAt?_of_openDirectory hopen) hname
        have hcontents := copyContents_within depth
          (fun below hbelow _ source _ _ _ hland => (ih below (by omega) source hland).1) source hnames
          (h.within hmade) hdir hfree
        exact ⟨hmade.trans hcontents, fun _ => ⟨hnone, hcontents.grows.directory hdir⟩⟩

end Edit

end ModuleBuild
