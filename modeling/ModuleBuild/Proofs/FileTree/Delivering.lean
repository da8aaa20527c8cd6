/-
  ModuleBuild.Proofs.FileTree.Delivering
  ──────────────────────────────────────
  **COPYING TO A PATH.**

  A copy to a path makes the directories above it first.  If the path is one
  that the system does not take, or ends in dots, nothing else happens; if not,
  and nothing was there, the copy keeps to the destination of the path.

  Main results:
    * `copyDirectoryTo_dotted`, `copyFile_refused` — what is not copied;
    * `copyPath_delivered` — a copy leaves everything but its destination, apart from directories that
      appear on the way, and lies there if it succeeds.
-/
import ModuleBuild.Proofs.FileTree.Copying

namespace ModuleBuild

open FileTree

namespace Edit

variable {t : FileTree}

/-! ## §1. Destinations that the system refuses. -/

/-- A file is not copied to a path that the system does not take. -/
theorem copyFile_refused (source : Text) {dest : Text}
    (h : ∀ aim place, t.locate aim dest ≠ .ok place) :
    ∃ failure, (copyFile source dest).runOn t = (.error failure, t) := by
  unfold copyFile
  rw [runOn_bind, runOn_get]
  dsimp only
  split
  · rename_i hdir
    obtain ⟨l, hlocate, -⟩ := locate_of_namesDirectory hdir
    exact absurd hlocate (h _ _)
  · rcases copyBytes_cases source dest t with hfail | ⟨l, old, content, -, hfile, -⟩
    · exact hfail
    · unfold fileAt at hfile
      cases hlocate : t.locate .file dest with
      | error failure =>
        rw [hlocate] at hfile
        cases hfile
      | ok place => exact absurd hlocate (h _ _)

/-- No directory is made at a path that ends in dots. -/
theorem makeLast_dotted {p : Text} (hdots : ∀ m ∈ Path.names p, m = Path.here ∨ m = Path.up)
    (t : FileTree) : ∃ failure, (makeLast false p).runOn t = (.error failure, t) := by
  unfold makeLast
  rw [runOn_tryCatch, run_change]
  cases hmade : t.makeDirectory p with
  | ok t' =>
    obtain ⟨l, hl, -⟩ := makeDirectory_eq_put hmade
    obtain ⟨init, n, d, hnames, hn, -⟩ := leads_of_lastLocation hl
    rcases hdots n (hnames ▸ by simp) with h1 | h2
    · exact absurd h1 hn.2.1
    · exact absurd h2 hn.2.2
  | error failure =>
    refine ⟨failure, ?_⟩
    simp only [runOn_bind, runOn_get, Bool.and_false, Bool.false_and, Bool.not_false, if_true]
    rfl

/-- Nor is one above it, when none may be there already. -/
theorem makeDirectories_of_step {p : Text} {t : FileTree}
    (hdots : ∀ m ∈ Path.names p, m = Path.here ∨ m = Path.up) (hlast : (splitLast p).2 ≠ Path.here)
    (habove : (splitLast p).2 ≠ [] → ((makeDirectories false (splitLast p).1).runOn t).2 = t) :
    ∃ failure, (makeDirectories false p).runOn t = (.error failure, t) := by
  obtain ⟨t1, ht1, hrun⟩ := runOn_makeDirectories false t hlast
  have hsame : t1 = t := by
    rcases ht1 with h | ⟨hne, h⟩
    · exact h
    · rw [h, habove hne]
  subst hsame
  rcases hrun with hfail | hrun
  · exact hfail
  · rw [hrun]
    exact makeLast_dotted hdots t1

theorem makeDirectories_ups (ups : Nat) (t : FileTree) :
    ∃ failure, (makeDirectories false (Path.written [] (List.replicate ups Path.up))).runOn t
      = (.error failure, t) := by
  have hups : ∀ ups, ∀ m ∈ List.replicate ups Path.up, Path.IsPart m := by
    intro ups m hm
    rw [List.eq_of_mem_replicate hm]
    exact Path.isPart_up
  have hdots : ∀ ups, ∀ m ∈ Path.names (Path.written [] (List.replicate ups Path.up)),
      m = Path.here ∨ m = Path.up := by
    intro ups m hm
    rw [Path.names_written (.inl rfl) (hups ups)] at hm
    exact .inr (List.eq_of_mem_replicate hm)
  induction ups with
  | zero => exact makeDirectories_of_step (hdots 0) (by decide) (fun h => absurd rfl h)
  | succ ups ih =>
    obtain ⟨failure, hrec⟩ := ih
    have hsplit := splitLast_written (.inl rfl) (hups ups) Path.isPart_up
    rw [← List.replicate_succ'] at hsplit
    refine makeDirectories_of_step (hdots (ups + 1)) ?_ ?_
    · rw [hsplit]
      exact Path.up_ne_here
    · intro _
      rw [hsplit, hrec]

theorem makeDirectories_dotted {p : Text} (hdots : Dotted p) (t : FileTree) :
    ∃ failure, (makeDirectories false p).runOn t = (.error failure, t) := by
  cases hdots with
  | here =>
    have hrun : (makeDirectories false Path.here).runOn t = (makeLast false Path.here).runOn t := by
      rw [makeDirectories.eq_1 false Path.here, runOn_bind, runOn_get]
      dsimp only
      rw [dif_neg]
      · rfl
      · intro h
        exact h.2.1 (by decide)
    rw [hrun]
    exact makeLast_dotted Dotted.here.names t
  | ups ups => exact makeDirectories_ups (ups + 1) t
  | root hroot hne =>
    have hlast : (splitLast p).2 = [] := by
      rcases hroot with rfl | rfl | rfl <;> rfl
    refine makeDirectories_of_step (Dotted.root hroot hne).names ?_ ?_
    · rw [hlast]
      decide
    · exact fun h => absurd hlast h

/-- No directory is copied to a path that ends in dots. -/
theorem copyDirectoryTo_dotted {dest : Text} (hdots : Dotted dest) (depth : Nat) (source : Text)
    (t : FileTree) :
    ∃ failure, (copyDirectoryTo depth source dest).runOn t = (.error failure, t) := by
  obtain ⟨failure, hfail⟩ := makeDirectories_dotted hdots t
  rw [runOn_copyDirectoryTo, hfail]
  cases t.openDirectory source with
  | error failure => exact ⟨failure, rfl⟩
  | ok l => exact ⟨failure, rfl⟩

/-! ## §2. Files and directories. -/

/-- The last step of a copy, once the directories above the destination are made. -/
def copyOver (source dest : Text) : Edit Unit := do
  if (← get).namesDirectory source then copyDirectoryTo FileTree.pathBytesLimit source dest
  else copyFile source dest

/-- What a copy to a vacant path leaves. -/
structure Delivered (p : Text) (t : FileTree) (r : Except Failure Unit) (t' : FileTree) : Prop where
  workingDir : t'.workingDir = t.workingDir
  proper : Proper t → Proper t'
  /-- Nothing changes, or things appear at the destination, below it, and on the way to it; if the copy
  succeeds, one is at the destination. -/
  delivered : (r ≠ .ok () ∧ ∀ k, t'.entryAt? k = t.entryAt? k)
    ∨ ∃ D, Destination t p D ∧ t.entryAt? D = none ∧ (r = .ok () → t'.entryAt? D ≠ none) ∧
        ∀ k, ¬ D <+: k → t'.entryAt? k = t.entryAt? k
          ∨ (t.entryAt? k = none ∧ t'.entryAt? k = some .directory ∧ k <+: D)

/-- The path of the directory above a destination. -/
theorem makeAbove_made {p root : Text} {init : List Text} {n : Text} {r : Except Failure Unit}
    {t' : FileTree} (habs : t.absolute p = Path.written root (init ++ [n]))
    (hroot : Path.IsRoot root) (hne : root ≠ []) (hinit : ∀ m ∈ init, Path.IsName m)
    (hn : Path.IsName n)
    (h : (makeDirectories true (Path.dirName (t.absolute p))).runOn t = (r, t')) :
    Made true t [] init r t' := by
  have hparts := isName_parts hinit
  have hstart := startOf_written (t := t) hroot hparts
  rw [if_neg hne] at hstart
  rw [habs, Path.dirName_written hroot hparts hn.1] at h
  have hmade := makeDirectories_made true hroot (Path.tidy_of_isName hinit)
    (by rw [hstart]; exact entryAt?_root t) h
  rwa [hstart] at hmade

/-- The last step of a copy to a path that ends in a name keeps to what is under the name, if nothing
is there.  If it succeeds, something is. -/
theorem copyOver_within {source root : Text} {init : List Text} {n : Text} {d : Location}
    {r : Except Failure Unit} {t' : FileTree} (h : Landing t root init n d)
    (hnone : t.entryAt? (d ++ [Utf8.nameForm n]) = none)
    (hrun : (copyOver source (Path.written root (init ++ [n]))).runOn t = (r, t')) :
    Within (d ++ [Utf8.nameForm n]) t t' ∧
      (r = .ok () → t'.entryAt? (d ++ [Utf8.nameForm n]) ≠ none) := by
  unfold copyOver at hrun
  rw [runOn_bind, runOn_get] at hrun
  dsimp only at hrun
  split at hrun
  · obtain ⟨hwithin, hok⟩ := copyDirectoryTo_within pathBytesLimit source h
    rw [hrun] at hwithin hok
    exact ⟨hwithin, fun hr => ne_none_of_eq_some (hok hr).2⟩
  · have hlink : t.LinkFreeAt (d ++ [Utf8.nameForm n]) := by
      intro k path hk
      rw [entryAt?_eq_none_of_below hnone hk]
      simp
    have hwithin := copyFile_within source h hlink (.inl hnone)
    rw [hrun] at hwithin
    refine ⟨hwithin, fun hr => ?_⟩
    rw [hr] at hrun
    exact copyFile_lands h hnone hrun

/-- It fails and changes nothing, if something is there to which the path does not lead. -/
theorem copyOver_refused {source root : Text} {init : List Text} {n : Text} {d : Location}
    {r : Except Failure Unit} {t' : FileTree} (h : Landing t root init n d)
    (hsome : t.entryAt? (d ++ [Utf8.nameForm n]) ≠ none)
    (hrefused : ∀ aim place, t.locate aim (Path.written root (init ++ [n])) ≠ .ok place)
    (hrun : (copyOver source (Path.written root (init ++ [n]))).runOn t = (r, t')) :
    r ≠ .ok () ∧ t'.workingDir = t.workingDir ∧ (Proper t → Proper t') ∧
      ∀ k, t'.entryAt? k = t.entryAt? k := by
  unfold copyOver at hrun
  rw [runOn_bind, runOn_get] at hrun
  dsimp only at hrun
  split at hrun
  -- a directory is only made where nothing is, so the first step fails already
  · obtain ⟨hwithin, hok⟩ := copyDirectoryTo_within pathBytesLimit source h
    rw [hrun] at hwithin hok
    refine ⟨fun hr => hsome (hok hr).1, hwithin.workingDir, hwithin.proper, ?_⟩
    rw [runOn_copyDirectoryTo] at hrun
    cases hopen : t.openDirectory source with
    | error failure =>
      rw [hopen] at hrun
      cases hrun
      exact fun _ => rfl
    | ok l =>
      rw [hopen] at hrun
      dsimp only at hrun
      rcases hmake : (makeDirectories false (Path.written root (init ++ [n]))).runOn t with ⟨r1, t1⟩
      obtain ⟨-, hnew, hmade⟩ := makeDirectories_last h.isRoot h.tidy h.start h.leads hmake
      cases r1 with
      | ok u => exact absurd (hmade rfl).1 hsome
      | error failure =>
        rw [hmake] at hrun
        cases hrun
        intro k
        rcases hnew k with heq | ⟨rfl, hnone, -⟩
        · exact heq
        · exact absurd hnone hsome
  · obtain ⟨failure, hfail⟩ := copyFile_refused source hrefused
    rw [hfail] at hrun
    cases hrun
    exact ⟨by simp, rfl, id, fun _ => rfl⟩

theorem copyOver_dotted (source : Text) {dest : Text} (hdots : Dotted dest)
    (hrefused : ∀ aim place, t.locate aim dest ≠ .ok place) :
    ∃ failure, (copyOver source dest).runOn t = (.error failure, t) := by
  unfold copyOver
  rw [runOn_bind, runOn_get]
  dsimp only
  split
  · exact copyDirectoryTo_dotted hdots _ source t
  · exact copyFile_refused source hrefused

/-- A copy: if the directory from which the path of the destination starts is there, the directories
above the destination are made, and if they are, the last step follows. -/
theorem runOn_copyPath (source dest : Text) (t : FileTree) :
    t.entryAt? (t.startOf dest) ≠ some .directory ∧
        (∃ failure, (copyPath source dest).runOn t = (.error failure, t))
      ∨ t.entryAt? (t.startOf dest) = some .directory ∧
        ∃ r t', (makeDirectories true (Path.dirName (t.absolute dest))).runOn t = (r, t') ∧
          ((∃ failure, r = .error failure ∧ (copyPath source dest).runOn t = (.error failure, t'))
            ∨ r = .ok () ∧ (copyPath source dest).runOn t = (copyOver source dest).runOn t') := by
  unfold copyPath
  rw [runOn_bind, run_ask]
  unfold checkWorkingDir
  -- only a relative path asks for the working directory
  by_cases hcheck : (Path.isAbsolute dest || t.isDirectory t.workingDir) = true
  · rw [if_pos hcheck]
    refine .inr ⟨?_, ?_⟩
    · unfold startOf
      split
      · rfl
      · rename_i hrel
        simpa [hrel, FileTree.isDirectory] using hcheck
    · dsimp only
      rw [runOn_bind, runOn_get]
      dsimp only
      rw [runOn_bind]
      rcases hrun : (makeDirectories true (Path.dirName (t.absolute dest))).runOn t with ⟨r, t'⟩
      refine ⟨r, t', rfl, ?_⟩
      cases r with
      | error failure => exact .inl ⟨failure, rfl, rfl⟩
      | ok u => exact .inr ⟨rfl, rfl⟩
  · rw [if_neg hcheck]
    refine .inl ⟨fun hdir => hcheck ?_, _, rfl⟩
    unfold startOf at hdir
    split at hdir
    · rename_i habs
      simp [habs]
    · simp [FileTree.isDirectory, hdir]

/-- Directories that are made above the destination leave everything else. -/
theorem Made.delivered {p : Text} {init : List Text} {n : Text} {r r' : Except Failure Unit}
    {t' : FileTree} (h : Made true t [] init r t') (hnames : Path.names (t.absolute p) = init ++ [n])
    (hr' : r' ≠ .ok ()) : Delivered p t r' t' := by
  refine ⟨h.workingDir, h.proper, ?_⟩
  rcases h.opened with hsame | ⟨l, hl, hnone, hopen⟩
  · exact .inl ⟨hr', hsame⟩
  · refine .inr ⟨l ++ [Utf8.nameForm n], .named hnames hl,
      entryAt?_eq_none_of_below hnone (List.prefix_append ..), fun hr => absurd hr hr', ?_⟩
    intro k _
    rcases hopen k with heq | ⟨h1, h2, hpre⟩
    · exact .inl heq
    · exact .inr ⟨h1, h2, hpre.trans (List.prefix_append ..)⟩

/-- What is put into the last of the directories that are made lies at the destination. -/
theorem Made.delivered_within {p : Text} {init : List Text} {n : Text} {d : Location}
    {r r1 : Except Failure Unit} {t1 t' : FileTree} (h : Made true t [] init r1 t1)
    (hnames : Path.names (t.absolute p) = init ++ [n]) (hd : Leads t1 [] init d)
    (hnone : t.entryAt? (d ++ [Utf8.nameForm n]) = none)
    (hwithin : Within (d ++ [Utf8.nameForm n]) t1 t')
    (hok : r = .ok () → t'.entryAt? (d ++ [Utf8.nameForm n]) ≠ none) : Delivered p t r t' := by
  obtain ⟨hsettles, hopen⟩ := h.settles hd
  refine ⟨hwithin.workingDir.trans h.workingDir, hwithin.proper ∘ h.proper, .inr ?_⟩
  refine ⟨d ++ [Utf8.nameForm n], .named hnames hsettles, hnone, hok, fun k hk => ?_⟩
  rw [hwithin.outside k hk]
  rcases hopen k with heq | ⟨h1, h2, hpre⟩
  · exact .inl heq
  · exact .inr ⟨h1, h2, hpre.trans (List.prefix_append ..)⟩

/-- A path at which nothing is found although something lies there is not taken by the system. -/
theorem refused_of_not_pathOccupied {root : Text} {init : List Text} {n : Text} {d : Location}
    {t1 : FileTree} (hland : Landing t1 root init n d) (hwd : t1.workingDir = t.workingDir)
    (hless : Extends t t1)
    (hleads : Leads t (t.startOf (Path.written root (init ++ [n]))) init d)
    (hsome : t.entryAt? (d ++ [Utf8.nameForm n]) ≠ none)
    (hfree : t.pathOccupied (Path.written root (init ++ [n])) = false) (aim : Aim) (place : Place) :
    t1.locate aim (Path.written root (init ++ [n])) ≠ .ok place := by
  intro hlocate
  obtain ⟨e, he⟩ := Option.ne_none_iff_exists'.1 hsome
  have hfound : t.locate .name (Path.written root (init ++ [n]))
      = .ok (.occupied (d ++ [Utf8.nameForm n])) :=
    locate_last hland.names hland.isName hland.not_slash hless.grows hwd hleads hlocate he (.inl rfl)
  unfold pathOccupied findLink? at hfree
  rw [hfound] at hfree
  simp [he] at hfree

/-- **A copy to a path that ends in a name leaves everything but its destination**, if nothing was
there. -/
theorem copyPath_named (source : Text) (hproper : Proper t) {root : Text} (hroot : Path.IsRoot root)
    {init : List Text} {n : Text} (htidy : Path.Tidy (root ≠ []) (init ++ [n])) (hn : Path.IsName n)
    (hfree : t.pathOccupied (Path.written root (init ++ [n])) = false) {r : Except Failure Unit}
    {t' : FileTree} (hcopy : (copyPath source (Path.written root (init ++ [n]))).runOn t = (r, t')) :
    Delivered (Path.written root (init ++ [n])) t r t' := by
  obtain ⟨root', init', habs, hroot', hne', hinit', hback⟩ := exists_absolute hproper hroot htidy hn
  have hnames : Path.names (t.absolute (Path.written root (init ++ [n]))) = init' ++ [n] := by
    rw [habs, names_written_concat hroot' hinit' hn]
  rcases runOn_copyPath source (Path.written root (init ++ [n])) t with
    ⟨-, failure, hfail⟩ | ⟨hstart, r1, t1, hrun, hlast⟩
  · rw [hfail] at hcopy
    cases hcopy
    exact ⟨rfl, id, .inl ⟨by simp, fun _ => rfl⟩⟩
  have hmade := makeAbove_made habs hroot' hne' hinit' hn hrun
  rcases hlast with ⟨failure, -, hlast⟩ | ⟨hr, hlast⟩
  · rw [hlast] at hcopy
    cases hcopy
    exact hmade.delivered hnames (by simp)
  rw [hlast] at hcopy
  obtain ⟨d, hd, -⟩ := hmade.leads hr
  obtain ⟨-, hopen⟩ := hmade.settles hd
  -- the copy lands where the names of the absolute form settle
  have hstart1 : t1.entryAt? (t1.startOf (Path.written root (init ++ [n]))) = some .directory := by
    rw [startOf_eq hmade.workingDir]
    exact hmade.extends _ _ hstart
  have hland : Landing t1 root init n d :=
    ⟨hmade.proper hproper, hroot, htidy, hn, hstart1,
      (hback t1 d hmade.workingDir).2 hstart1 hd⟩
  have hbeyond : t1.entryAt? (d ++ [Utf8.nameForm n]) = t.entryAt? (d ++ [Utf8.nameForm n]) := by
    rcases hopen (d ++ [Utf8.nameForm n]) with heq | ⟨-, -, hpre⟩
    · exact heq
    · exact absurd hpre (not_prefix_of_concat _ _)
  by_cases hnone : t.entryAt? (d ++ [Utf8.nameForm n]) = none
  · -- something new can lie there
    obtain ⟨hwithin, hok⟩ := copyOver_within hland (hbeyond.trans hnone) hcopy
    exact hmade.delivered_within hnames hd hnone hwithin hok
  · -- the directory was there before, and so was what it holds, which the path does not lead to
    have hsame := hopen.eq_of_isDirectory (isDirectory_of_append hnone)
    have hleads : Leads t (t.startOf (Path.written root (init ++ [n]))) init d := by
      rw [← startOf_eq hmade.workingDir]
      refine hland.leads.grows fun k e' he' _ => ?_
      rw [← hsame, he']
    obtain ⟨hr', hdir, hproper', hkeep⟩ := copyOver_refused hland (by rw [hbeyond]; exact hnone)
      (refused_of_not_pathOccupied hland hmade.workingDir hmade.extends hleads hnone hfree) hcopy
    exact ⟨hdir.trans hmade.workingDir, hproper' ∘ hmade.proper,
      .inl ⟨hr', fun k => by rw [hkeep, hsame]⟩⟩

/-- **A copy to a path that ends in dots fails and leaves everything**, if the system does not take the
path. -/
theorem copyPath_dotted {source p : Text} (hdots : Dotted p) (hfree : t.pathOccupied p = false)
    {r : Except Failure Unit} {t' : FileTree} (hcopy : (copyPath source p).runOn t = (r, t')) :
    Delivered p t r t' := by
  rcases runOn_copyPath source p t with ⟨-, failure, hfail⟩ | ⟨hstart, r1, t1, hrun, hlast⟩
  · rw [hfail] at hcopy
    cases hcopy
    exact ⟨rfl, id, .inl ⟨by simp, fun _ => rfl⟩⟩
  · have hrefused : ∀ aim place, t1.locate aim p ≠ .ok place := by
      intro aim place hlocate
      rw [pathOccupied_of_dotted hdots hstart hlocate] at hfree
      cases hfree
    have hfails : ∃ failure, r = .error failure ∧ t' = t1 := by
      rcases hlast with ⟨failure, -, hlast⟩ | ⟨-, hlast⟩
      · rw [hlast] at hcopy
        cases hcopy
        exact ⟨failure, rfl, rfl⟩
      · obtain ⟨failure, hfail⟩ := copyOver_dotted source hdots hrefused
        rw [hlast, hfail] at hcopy
        cases hcopy
        exact ⟨failure, rfl, rfl⟩
    obtain ⟨failure, rfl, rfl⟩ := hfails
    obtain ⟨root, ns, habs, hroot, hne, hns⟩ := exists_absolute_written t p
    rcases List.eq_nil_or_concat ns with rfl | ⟨init, n, rfl⟩
    · -- above the root there is nothing to make
      have hdir : Path.dirName (Path.written root []) = Path.written root [] := by
        rw [Path.written_nil]
        rcases hroot with rfl | rfl | rfl <;> rfl
      have hempty : ∀ m ∈ ([] : List Text), Path.IsName m := by simp
      have hroot' := startOf_written (t := t) hroot (isName_parts hempty)
      rw [if_neg hne] at hroot'
      rw [habs, hdir] at hrun
      have hmade := makeDirectories_made true hroot (Path.tidy_of_isName hempty)
        (by rw [hroot']; exact entryAt?_root t) hrun
      refine ⟨hmade.workingDir, hmade.proper, .inl ⟨by simp, ?_⟩⟩
      rcases hmade.opened with hsame | ⟨l, hl, hnone, -⟩
      · exact hsame
      · rw [hroot'] at hl
        rw [hl.det (Leads.nil []).settles, entryAt?_root] at hnone
        cases hnone
    · rw [List.concat_eq_append] at habs hns
      have hn : Path.IsName n := hns n (by simp)
      have hinit : ∀ m ∈ init, Path.IsName m := fun m hm => hns m (by simp [hm])
      have hnames : Path.names (t.absolute p) = init ++ [n] := by
        rw [habs, Path.names_written hroot (isName_parts hns)]
      exact (makeAbove_made habs hroot hne hinit hn hrun).delivered hnames (by simp)

/-- **A copy to a normal path leaves everything but its destination**, if nothing was there. -/
theorem copyPath_delivered {source q : Text} (hproper : Proper t)
    (hfree : t.pathOccupied (Path.normalize q) = false) {r : Except Failure Unit} {t' : FileTree}
    (hcopy : (copyPath source (Path.normalize q)).runOn t = (r, t')) :
    Delivered (Path.normalize q) t r t' := by
  rcases dotted_or_named q with hdots | ⟨root, init, n, hq, hroot, htidy, hn⟩
  · exact copyPath_dotted hdots hfree hcopy
  · rw [hq] at hfree hcopy ⊢
    exact copyPath_named source hproper hroot htidy hn hfree hcopy

end Edit

end ModuleBuild
