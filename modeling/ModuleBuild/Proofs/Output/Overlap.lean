/-
  ModuleBuild.Proofs.Output.Overlap
  ─────────────────────────────────
  **ASSETS THAT LIE WHERE THEY ARE TO GO.**

  The destination of an asset is cleared before the asset is read.  An asset
  that lies apart from its destination, and is reached without it, is left as
  it is.  One that lies at its destination or below it is lost: the copy that
  should follow finds nothing to read.

  Main results:
    * `source_of_vacant`, `source_of_occupied` — an asset apart from its destination is left as it is;
    * `source_lost` — one at its destination or below it is lost;
    * `placeOne_source` — both, for a step of the program.
-/
import Mathlib
import ModuleBuild.Proofs.Output.Placing

namespace ModuleBuild

open FileTree Edit

namespace Edit

variable {t t' : FileTree} {source dest : Text}

/-! ## §1. Copies of nothing. -/

theorem copyBytes_unread (dest : Text) (h : ∀ content, t.readBytes source ≠ .ok content) :
    ((copyBytes source dest).runOn t).2 = t := by
  unfold copyBytes
  rw [runOn_bind, run_ask]
  cases checkPath source with
  | error failure => rfl
  | ok u =>
    dsimp only
    rw [runOn_bind, run_ask]
    cases checkPath dest with
    | error failure => rfl
    | ok u =>
      dsimp only
      rw [runOn_bind, runOn_view]
      dsimp only
      split
      · rfl
      · rw [runOn_bind, run_ask]
        cases hread : t.readBytes source with
        | error failure => rfl
        | ok content => exact absurd hread (h content)

/-- What is neither a file nor a directory is not copied. -/
theorem copyOver_unread (dest : Text) (hdir : t.namesDirectory source = false)
    (hread : ∀ content, t.readBytes source ≠ .ok content) :
    ((copyOver source dest).runOn t).2 = t := by
  unfold copyOver copyFile
  rw [runOn_bind, runOn_get]
  dsimp only
  rw [hdir, if_neg (by simp), runOn_bind, runOn_get]
  dsimp only
  split
  · exact copyBytes_unread _ hread
  · exact copyBytes_unread _ hread

/-- A path leads nowhere in a tree that has no more than before, and nothing where the path led. -/
theorem unread_of_gone {S : Location} (hless : Extends t' t) (hwd : t'.workingDir = t.workingDir)
    (hS : t.locate .target source = .ok (.occupied S)) (hgone : t'.entryAt? S = none) :
    t'.namesDirectory source = false ∧ ∀ content, t'.readBytes source ≠ .ok content := by
  -- a path that still leads somewhere leads where it led before
  have hsame : ∀ l, t'.locate .target source = .ok (.occupied l) → t'.entryAt? l = none := by
    intro l hl
    have hl' := hless.locate hwd hl
    rw [hS] at hl'
    cases hl'
    exact hgone
  constructor
  · rw [Bool.eq_false_iff]
    intro hdir
    obtain ⟨l, hl, hentry⟩ := locate_of_namesDirectory hdir
    rw [hsame l hl] at hentry
    cases hentry
  · intro content hread
    obtain ⟨l, hl, hfile⟩ := exists_of_readBytes hread
    rw [hsame l hl] at hfile
    cases hfile

/-! ## §2. Files and empty directories that go. -/

/-- A tree from which a file or an empty directory has gone. -/
structure LeafGone (D : Location) (t t' : FileTree) : Prop where
  workingDir : t'.workingDir = t.workingDir
  noLink : ∀ path, t.entryAt? D ≠ some (.link path)
  leaf : ∀ k, D <+: k → k ≠ D → t.entryAt? k = none
  outside : ∀ k, ¬ D <+: k → t'.entryAt? k = t.entryAt? k
  gone : ∀ k, D <+: k → t'.entryAt? k = none

theorem leafGone_remove {d : Location} {m : Text}
    (hlink : ∀ path, t.entryAt? (d ++ [m]) ≠ some (.link path))
    (hleaf : ∀ k, d ++ [m] <+: k → k ≠ d ++ [m] → t.entryAt? k = none) :
    LeafGone (d ++ [m]) t (t.remove (d ++ [m])) where
  workingDir := workingDir_remove ..
  noLink := hlink
  leaf := hleaf
  outside := fun k hk => entryAt?_remove_outside hk
  gone := by
    intro k hk
    rw [entryAt?_remove_concat, if_pos hk]

/-- A directory from which everything has gone goes itself. -/
theorem leafGone_emptied {d : Location} {m : Text} (hd : t.entryAt? d = some .directory) :
    LeafGone (d ++ [m]) (t.put (d ++ [m]) .emptyDirectory)
      ((t.put (d ++ [m]) .emptyDirectory).remove (d ++ [m])) := by
  refine leafGone_remove (fun path => ?_) fun k hpre hne => ?_
  · rw [entryAt?_put_leaf hd rfl, if_pos rfl]
    simp [Node.emptyDirectory, Node.entry]
  · rw [entryAt?_put_leaf hd rfl, if_neg hne, if_pos hpre]

theorem LeafGone.extends {D : Location} (h : LeafGone D t t') : Extends t' t :=
  extends_of_gone h.outside h.gone

variable {init : List Text} {d l : Location} {n : Text}

/-- Names that led to the directory of what has gone settle there. -/
theorem LeafGone.settles (h : LeafGone (d ++ [n]) t t') (hleads : Leads t [] init d)
    (hl : Settles t' [] init l) : l = d := by
  rcases hl.of_less h.extends hleads with heq | ⟨mid, y, ys, hway, hnames, hnone, hsome, -⟩
  · exact heq
  · exfalso
    have hy := hnames y (List.mem_cons_self ..)
    -- the name that is missing is the one that went
    have hpre : d ++ [n] <+: mid ++ [Utf8.nameForm y] := by
      by_contra hno
      rw [h.outside _ hno] at hnone
      exact hsome hnone
    have heq : mid ++ [Utf8.nameForm y] = d ++ [n] := by
      by_contra hne
      exact hsome (h.leaf _ hpre hne)
    obtain ⟨hmid, -⟩ := List.append_inj' heq rfl
    subst hmid
    -- and below it the names would have led nowhere
    cases hway with
    | here => exact hy.2.1 rfl
    | up => exact hy.2.2 rfl
    | through _ _ he =>
      rw [heq] at he
      exact h.noLink _ he
    | into _ _ _ hway =>
      rw [heq] at hway
      cases ys with
      | nil =>
        have hlength := congrArg List.length hway.nil_eq
        simp at hlength
      | cons z zs =>
        refine hway.ne_none (hnames z (by simp)) (h.leaf _ (List.prefix_append ..) ?_)
        intro hz
        have hlength := congrArg List.length hz
        simp at hlength

/-- The directories above a destination are there when what was at the destination has gone. -/
theorem LeafGone.makeAbove {r : Except Failure Unit} {t1 : FileTree} {root : Text}
    (h : LeafGone (d ++ [Utf8.nameForm n]) t t')
    (habs : t.absolute dest = Path.written root (init ++ [n])) (hroot : Path.IsRoot root)
    (hne : root ≠ []) (hinit : ∀ m ∈ init, Path.IsName m) (hn : Path.IsName n)
    (hleads : Leads t [] init d)
    (hrun : (makeDirectories true (Path.dirName (t'.absolute dest))).runOn t' = (r, t1)) :
    t1.workingDir = t'.workingDir ∧ ∀ k, t1.entryAt? k = t'.entryAt? k := by
  have habs' : t'.absolute dest = Path.written root (init ++ [n]) := by
    unfold FileTree.absolute
    rw [h.workingDir]
    exact habs
  have hmade := makeAbove_made habs' hroot hne hinit hn hrun
  refine ⟨hmade.workingDir, ?_⟩
  rcases hmade.opened with hsame | ⟨l, hl, hnone, -⟩
  · exact hsame
  · rw [h.settles hleads hl, h.outside, hleads.isDirectory rfl] at hnone
    · cases hnone
    · exact FileTree.not_prefix_of_concat _ _

/-- **A copy of what has gone from its destination changes nothing.** -/
theorem LeafGone.copyPath {u : FileTree} {S : Location} {root : Text}
    (h : LeafGone (d ++ [Utf8.nameForm n]) t t') (hproper : Proper t) (hroot : Path.IsRoot root)
    (htidy : Path.Tidy (root ≠ []) (init ++ [n])) (hn : Path.IsName n)
    (hleads : Leads t (t.startOf (Path.written root (init ++ [n]))) init d)
    (hdir : t.entryAt? d = some .directory) (hless : Extends t u)
    (hwd : t.workingDir = u.workingDir) (hS : u.locate .target source = .ok (.occupied S))
    (hpre : d ++ [Utf8.nameForm n] <+: S) (k : Location) :
    ((Edit.copyPath source (Path.written root (init ++ [n]))).runOn t').2.entryAt? k
      = t'.entryAt? k := by
  obtain ⟨root', init', habs, hroot', hne', hinit', hback⟩ := exists_absolute hproper hroot htidy hn
  have hleads' := (hback t d rfl).1 hleads hdir
  rcases runOn_copyPath source (Path.written root (init ++ [n])) t' with
    ⟨-, failure, hfail⟩ | ⟨-, r, t1, hrun, hlast⟩
  · rw [hfail]
  · obtain ⟨hwd1, hsame⟩ := h.makeAbove habs hroot' hne' hinit' hn hleads' hrun
    rcases hlast with ⟨failure, -, hlast⟩ | ⟨-, hlast⟩
    · rw [hlast, hsame]
    · -- the last step finds nothing to read
      have hless1 : Extends t1 u := by
        intro k e he
        rw [hsame] at he
        exact hless k e (h.extends k e he)
      obtain ⟨hno, hread⟩ := unread_of_gone hless1 ((hwd1.trans h.workingDir).trans hwd) hS
        (by rw [hsame, h.gone S hpre])
      rw [hlast, copyOver_unread _ hno hread, hsame]

end Edit

namespace Assets

variable {source output asset : Text} {S D : Location}

/-! ## §3. The source of an asset. -/

/-- A file or a directory lies at a location, and a path leads to it. -/
structure LiesAt (t : FileTree) (p : Text) (S : Location) : Prop where
  leads : t.locate .target p = .ok (.occupied S)
  occupied : t.entryAt? S ≠ none
  noLink : ∀ path, t.entryAt? S ≠ some (.link path)

/-- What lies at a location, and below it, is as before. -/
def SameAt (l : Location) (t t' : FileTree) : Prop :=
  ∀ k, l <+: k → t'.entryAt? k = t.entryAt? k

/-- A copy to a vacant destination takes nothing away. -/
theorem Copied.extends {p : Text} {t t' : FileTree} {placed : Prop} (h : Copied p t placed t')
    (hfree : t.pathOccupied p = false) : Extends t t' := by
  intro k e he
  rcases h.copied with ⟨-, hsame⟩ | ⟨D, -, hocc, -, hout⟩
  · rw [hsame, he]
  · have hnone : t.entryAt? D = none := by
      by_contra hsome
      rw [hocc.1 hsome] at hfree
      cases hfree
    have hk : ¬ D <+: k := by
      intro hpre
      rw [entryAt?_eq_none_of_below hnone hpre] at he
      cases he
    rcases hout k hk with heq | ⟨hnew, -⟩
    · rw [heq, he]
    · rw [hnew] at he
      cases he

variable {r : Report} {w w' : World} {result : Except Failure Report}

/-- **An asset whose destination is vacant is found as before**, and left as it is if the destination
is not in it.  If the asset is placed, it is left as it is only then. -/
theorem source_of_vacant (hproper : Proper w.tree) (hS : LiesAt w.tree (pathIn source asset) S)
    (hcopy : (copy source output asset r).runOn w = (result, w'))
    (hfree : w.tree.pathOccupied (pathIn output asset) = false) :
    w'.tree.locate .target (pathIn source asset)
        = .ok (.occupied S) ∧
      ((∀ D, Destination w.tree (pathIn output asset) D → ¬ S <+: D) →
        SameAt S w.tree w'.tree) ∧
      (Places r result →
        SameAt S w.tree w'.tree →
        ∀ D, Destination w.tree (pathIn output asset) D → ¬ S <+: D) := by
  have hdone := copy_copied hproper hcopy
  have hless := hdone.extends hfree
  refine ⟨hless.locate hdone.workingDir.symm hS.leads, fun hout k hk => ?_,
    fun hplaces hsame D hD hSD => ?_⟩
  · -- what is there stays, and what is new is at the destination or above it
    cases he : w.tree.entryAt? k with
    | some e => rw [hless k e he]
    | none =>
      rcases hdone.copied with ⟨-, hsame⟩ | ⟨D, hD, hocc, -, hkept⟩
      · rw [hsame, he]
      · have hDk : ¬ D <+: k := by
          intro hDk
          rcases List.prefix_or_prefix_of_prefix hDk hk with hDS | hSD
          · have hsome := hocc.1 fun hnone => hS.occupied (entryAt?_eq_none_of_below hnone hDS)
            rw [hfree] at hsome
            cases hsome
          · exact hout D hD hSD
        rcases hkept k hDk with heq | ⟨-, -, hpre⟩
        · rw [heq, he]
        · exact absurd (hk.trans hpre) (hout D hD)
  · rcases hdone.copied with ⟨hnot, -⟩ | ⟨D', hD', hocc, hlands, -⟩
    · exact hnot hplaces
    · rw [hD'.det hD] at hocc hlands
      have hsome := hlands hplaces
      rw [hsame D hSD] at hsome
      rw [hocc.1 hsome] at hfree
      cases hfree

/-- **An asset that does not lie where something is removed is left as it is**, if what lies there
afterwards is as before or apart from it.  Its path still leads to it, if it does so without what is
removed. -/
theorem source_of_occupied (hproper : Proper w.tree)
    (hcopy : (copy source output asset r).runOn w = (result, w'))
    (hocc : w.tree.pathOccupied (pathIn output asset) = true)
    (hD : Destination w.tree (pathIn output asset) D) (hDS : ¬ D <+: S) :
    ((S <+: D → SameAt D w.tree w'.tree) →
        SameAt S w.tree w'.tree) ∧
      ((w.tree.remove D).locate .target (pathIn source asset) = .ok (.occupied S) →
        w'.tree.locate .target (pathIn source asset)
          = .ok (.occupied S)) := by
  have hdone := copy_copied hproper hcopy
  have hout : ∀ k, ¬ D <+: k →
      w'.tree.entryAt? k = w.tree.entryAt? k := by
    intro k hk
    rcases hdone.copied with ⟨-, hsame⟩ | ⟨D', hD', hocc', -, hkept⟩
    · exact hsame k
    · rw [hD'.det hD] at hocc' hkept
      rcases hkept k hk with heq | ⟨hnone, -, hpre⟩
      · exact heq
      · exact absurd (entryAt?_eq_none_of_below hnone hpre) (hocc'.2 hocc)
  constructor
  · intro hsame k hk
    by_cases hDk : D <+: k
    · rcases List.prefix_or_prefix_of_prefix hDk hk with h | h
      · exact absurd h hDS
      · exact hsame h k hDk
    · exact hout k hDk
  · -- the way to the source does not pass the destination
    intro hwithout
    refine Extends.locate ?_ ((workingDir_remove ..).trans hdone.workingDir.symm) hwithout
    intro k e he
    rcases List.eq_nil_or_concat D with rfl | ⟨d, m, rfl⟩
    · exact absurd (List.nil_prefix) hDS
    · rw [List.concat_eq_append] at he hout
      rw [entryAt?_remove_concat] at he
      split at he
      · cases he
      · rename_i hk
        rw [hout k hk, he]

/-- A path that ends in a name is written with a root and names. -/
theorem written_of_ending {q name : Text} (hend : ending (Path.normalize q) = .named name) :
    ∃ root init n, Path.normalize q = Path.written root (init ++ [n]) ∧ Path.IsRoot root ∧
      Path.Tidy (root ≠ []) (init ++ [n]) ∧ Path.IsName n := by
  rcases dotted_or_named q with hdots | hnamed
  · obtain ⟨init, hnames, hname⟩ := eq_concat_of_ending hend
    rcases hdots.names name (by simp [hnames]) with h | h
    · exact absurd h hname.2.1
    · exact absurd h hname.2.2
  · exact hnamed

/-- What lies at a path that ends in a name is found at its destination. -/
theorem locate_of_destination {t : FileTree} {q name : Text} (hproper : Proper t)
    (hend : ending (Path.normalize q) = .named name)
    (hocc : t.pathOccupied (Path.normalize q) = true) (hD : Destination t (Path.normalize q) D) :
    t.locate .name (Path.normalize q) = .ok (.occupied D) := by
  obtain ⟨l, hlocate, hl⟩ := locate_of_pathOccupied hocc
  obtain ⟨root, init, n, hq, hroot, htidy, hn⟩ := written_of_ending hend
  rw [hq] at hlocate hD ⊢
  rw [hD.det (destination_of_occupied hproper hroot htidy hn hlocate hl)]
  exact hlocate

/-- A source at or below a place where there is no directory lies at the place, and goes when what is
there is removed. -/
theorem LiesAt.leafGone {t : FileTree} {p m : Text} {d : Location} (hS : LiesAt t p S)
    (hpre : d ++ [m] <+: S) (hfile : t.entryAt? (d ++ [m]) ≠ some .directory) :
    LeafGone (d ++ [m]) t (t.remove (d ++ [m])) := by
  have hleaf : ∀ k, d ++ [m] <+: k → k ≠ d ++ [m] → t.entryAt? k = none := by
    intro k hk hne
    by_contra hsome
    exact hfile (isDirectory_of_below hsome hk (Ne.symm hne))
  refine leafGone_remove (fun path hlink => ?_) hleaf
  by_cases hne : S = d ++ [m]
  · exact hS.noLink path (hne ▸ hlink)
  · exact hS.occupied (hleaf S hpre hne)

/-- **An asset at its destination, or below it, is lost**: nothing is left at the destination but an
empty directory, which held something before. -/
theorem source_lost (hproper : Proper w.tree) (hS : LiesAt w.tree (pathIn source asset) S)
    (hcopy : (copy source output asset r).runOn w = (result, w')) {name : Text}
    (hend : ending (pathIn output asset) = .named name)
    (hD : w.tree.locate .name (pathIn output asset) = .ok (.occupied D)) (hDS : D <+: S) :
    (∀ k, D <+: k → w'.tree.entryAt? k = none)
      ∨ (∀ k, D <+: k → k ≠ D → w'.tree.entryAt? k = none) ∧
        ∃ k, D <+: k ∧ k ≠ D ∧ w.tree.entryAt? k ≠ none := by
  have hoccupied : w.tree.entryAt? D ≠ none :=
    fun hnone => hS.occupied (entryAt?_eq_none_of_below hnone hDS)
  have hocc : w.tree.pathOccupied (pathIn output asset) = true := by
    unfold pathOccupied findLink?
    rw [hD]
    exact Option.isSome_iff_ne_none.2 hoccupied
  have hsteps := copy_cases source output asset r w
  rw [hcopy] at hsteps
  rcases tree_clear (pathIn output asset) w with ⟨hfree, -⟩ | ⟨-, cleared, t1, events, hrun, hclear⟩
  · rw [hocc] at hfree
    cases hfree
  rw [hclear] at hsteps
  obtain ⟨root, init, n, hq, hroot, htidy, hn⟩ := written_of_ending (q := Path.join output asset) hend
  have hpath : pathIn output asset = Path.written root (init ++ [n]) := hq
  rw [hpath] at hD hrun hsteps
  obtain ⟨d, hd, rfl, hcases⟩ := removePath_named (Path.names_written hroot htidy.isPart) hn
    (Path.not_endsWith_written hn.1) hD hoccupied
  have hparent : w.tree.entryAt? d = some .directory := isDirectory_of_append hoccupied
  rcases hcases with ⟨hfile, hdone⟩ | ⟨hdir, ⟨failure, k, hfail, hfull⟩ | ⟨hdone, hleads⟩⟩
  · -- a file, which was the source itself
    rw [hdone] at hrun
    cases hrun
    have hgone := hS.leafGone hDS hfile
    refine .inl fun k hDk => ?_
    rw [hsteps.1]
    show ((copyPath (pathIn source asset) _).runOn (w.tree.remove (d ++ [Utf8.nameForm n]))).2.entryAt? k
      = none
    rw [hgone.copyPath hproper hroot htidy hn hd hparent (fun _ _ h => h) rfl hS.leads hDS k,
      hgone.gone k hDk]
  · -- a directory that is emptied, and stays
    rw [hfail] at hrun
    cases hrun
    refine .inr ⟨fun k hDk hne => ?_, k, hfull⟩
    rw [hsteps.1]
    show (w.tree.put (d ++ [Utf8.nameForm n]) .emptyDirectory).entryAt? k = none
    rw [entryAt?_put_leaf hparent rfl, if_neg hne, if_pos hDk]
  · -- a directory that is emptied, and goes
    rw [hdone] at hrun
    cases hrun
    have hempty : Removed (Path.written root (init ++ [n])) (d ++ [Utf8.nameForm n]) w.tree
        (.error .nullInPath) (w.tree.put (d ++ [Utf8.nameForm n]) .emptyDirectory) :=
      removed_emptied hdir
    have hgone := leafGone_emptied (m := Utf8.nameForm n) hparent
    have hparent' := (hempty.outside d (FileTree.not_prefix_of_concat _ _)).trans hparent
    rw [← startOf_eq hempty.workingDir] at hleads
    refine .inl fun k hDk => ?_
    rw [hsteps.1]
    show ((copyPath (pathIn source asset) _).runOn
      ((w.tree.put (d ++ [Utf8.nameForm n]) .emptyDirectory).remove
        (d ++ [Utf8.nameForm n]))).2.entryAt? k = none
    rw [hgone.copyPath (hempty.proper hproper) hroot htidy hn hleads hparent'
      (extends_emptied hparent hdir) hempty.workingDir hS.leads hDS k, hgone.gone k hDk]

/-- **What placing an asset does to its source.**  An asset that is not allowed changes nothing.  One
that is allowed is left as it is, if its destination is vacant and not in it; if the destination is
in it, it is not left as it is once it is placed.  Where something lies at the destination, it is
left as it is exactly if it is neither that nor below it, and what lies at the destination is as
before if that is in it. -/
theorem placeOne_source (hproper : Proper w.tree) (hS : LiesAt w.tree (pathIn source asset) S)
    (hrun : (placeOne source output asset r).runOn w = (result, w')) :
    (judge w.tree source output asset ≠ .ok .allowed → w'.tree = w.tree) ∧
    (judge w.tree source output asset = .ok .allowed →
      (w.tree.pathOccupied (pathIn output asset) = false →
        w'.tree.locate .target (pathIn source asset) = .ok (.occupied S) ∧
          ((∀ D, Destination w.tree (pathIn output asset) D → ¬ S <+: D) →
            SameAt S w.tree w'.tree) ∧
          (Places r result → SameAt S w.tree w'.tree →
            ∀ D, Destination w.tree (pathIn output asset) D → ¬ S <+: D)) ∧
      (w.tree.pathOccupied (pathIn output asset) = true →
        ∀ D, Destination w.tree (pathIn output asset) D →
          (¬ D <+: S → (S <+: D → SameAt D w.tree w'.tree) → SameAt S w.tree w'.tree) ∧
          (¬ D <+: S → (w.tree.remove D).locate .target (pathIn source asset) = .ok (.occupied S) →
            w'.tree.locate .target (pathIn source asset) = .ok (.occupied S)) ∧
          ∀ name, ending (pathIn output asset) = .named name → D <+: S →
            ¬ SameAt S w.tree w'.tree ∧ ∀ k, S <+: k → k ≠ D → w'.tree.entryAt? k = none)) := by
  constructor
  · intro hjudge
    have htree := placeOne_of_not_allowed r hjudge
    rw [hrun] at htree
    exact htree
  intro hjudge
  rw [placeOne_of_allowed r hjudge] at hrun
  refine ⟨source_of_vacant hproper hS hrun, fun hocc D hD => ?_⟩
  refine ⟨fun hDS => (source_of_occupied hproper hrun hocc hD hDS).1,
    fun hDS => (source_of_occupied hproper hrun hocc hD hDS).2, fun name hend hDS => ?_⟩
  have hlocate := locate_of_destination hproper hend hocc hD
  rcases source_lost hproper hS hrun hend hlocate hDS with hgone | ⟨hgone, k, hDk, hne, hsome⟩
  · refine ⟨fun hsame => hS.occupied ?_, fun k hk _ => hgone k (hDS.trans hk)⟩
    rw [← hsame S (List.prefix_refl S), hgone S hDS]
  · refine ⟨fun hsame => ?_, fun k hk => hgone k (hDS.trans hk)⟩
    by_cases hSD : S = D
    · -- what was below the destination is gone
      rw [hSD] at hsame
      rw [← hsame k hDk, hgone k hDk hne] at hsome
      exact hsome rfl
    · apply hS.occupied
      rw [← hsame S (List.prefix_refl S), hgone S hDS hSD]

/-- A source with an output beside it. -/
def neighbours : FileTree where
  top := [("src", .directory [("a.txt", .file [65])]), ("dist", .directory [("b.js", .file [66])])]
  workingDir := []

theorem proper_neighbours : neighbours.Proper := by
  refine proper_of_allNames ?_ (by decide)
  have hnames : neighbours.top.allNames = ["src", "a.txt", "dist", "b.js"] := by
    simp [neighbours, Forest.allNames_cons, Forest.allNames, Node.children]
  rw [hnames]
  decide

theorem destination_neighbours :
    Destination neighbours (pathIn "dist" "a.txt") ["dist", "a.txt"] := by
  have hnames : Path.names (neighbours.absolute (pathIn "dist" "a.txt"))
      = (["dist"] ++ ["a.txt"] : List Text) := by decide
  have hleads : Leads neighbours [] ["dist"] ["dist"] :=
    .into (by decide) (by decide) (by decide) (.nil _)
  exact .named hnames hleads.settles

/-- The source of an asset that goes to the output beside it is left as it is. -/
theorem placeOne_source_neighbours :
    neighbours.Proper ∧ LiesAt neighbours (pathIn "src" "a.txt") ["src", "a.txt"] ∧
      ((placeOne "src" "dist" "a.txt" .empty).runOn ⟨neighbours, []⟩).2.tree.entryAt?
        ["src", "a.txt"] = some (.file [65]) := by
  have hpath : pathIn "src" "a.txt" = "src/a.txt" := by decide
  have hfile : neighbours.entryAt? ["src", "a.txt"] = some (.file [65]) := by decide
  have hlies : LiesAt neighbours (pathIn "src" "a.txt") ["src", "a.txt"] :=
    ⟨by rw [hpath]; cbv, by rw [hfile]; simp, fun path => by rw [hfile]; simp⟩
  have hjudge : judge neighbours "src" "dist" "a.txt" = .ok .allowed := by
    rw [judge_eq_allowed_iff, hpath]
    exact ⟨by decide, by cbv, by decide, by cbv, by cbv⟩
  have hfree : neighbours.pathOccupied (pathIn "dist" "a.txt") = false := by
    have hdest : pathIn "dist" "a.txt" = "dist/a.txt" := by decide
    rw [hdest]
    cbv
  have hapart : ∀ D, Destination neighbours (pathIn "dist" "a.txt") D →
      ¬ (["src", "a.txt"] : Location) <+: D := by
    intro D hD
    rw [hD.det destination_neighbours]
    decide
  refine ⟨proper_neighbours, hlies, ?_⟩
  rcases hrun : (placeOne "src" "dist" "a.txt" .empty).runOn ⟨neighbours, []⟩ with ⟨result, w'⟩
  obtain ⟨-, hsame, -⟩ := ((placeOne_source proper_neighbours hlies hrun).2 hjudge).1 hfree
  rw [hsame hapart _ (List.prefix_refl _), hfile]

/-- A source that is the output as well. -/
def oneRoot : FileTree where
  top := [("app", .directory [("a.txt", .file [65])])]
  workingDir := []

theorem proper_oneRoot : oneRoot.Proper := by
  refine proper_of_allNames ?_ (by decide)
  have hnames : oneRoot.top.allNames = ["app", "a.txt"] := by
    simp [oneRoot, Forest.allNames_cons, Forest.allNames, Node.children]
  rw [hnames]
  decide

/-- An asset that is allowed does not survive the step that is to copy it. -/
theorem placeOne_loses_source :
    oneRoot.Proper ∧ LiesAt oneRoot (pathIn "app" "a.txt") ["app", "a.txt"] ∧
      oneRoot.entryAt? ["app", "a.txt"] = some (.file [65]) ∧
      ((placeOne "app" "app" "a.txt" .empty).runOn ⟨oneRoot, []⟩).2.tree.entryAt? ["app", "a.txt"]
        = none := by
  have hpath : pathIn "app" "a.txt" = "app/a.txt" := by decide
  have hfile : oneRoot.entryAt? ["app", "a.txt"] = some (.file [65]) := by decide
  have hlies : LiesAt oneRoot (pathIn "app" "a.txt") ["app", "a.txt"] :=
    ⟨by rw [hpath]; cbv, by rw [hfile]; simp, fun path => by rw [hfile]; simp⟩
  have hjudge : judge oneRoot "app" "app" "a.txt" = .ok .allowed := by
    rw [judge_eq_allowed_iff, hpath]
    exact ⟨by decide, by cbv, by decide, by cbv, by cbv⟩
  have hend : ending (pathIn "app" "a.txt") = .named "a.txt" := by decide
  have hlocate : oneRoot.locate .name (pathIn "app" "a.txt")
      = .ok (.occupied ["app", "a.txt"]) := by
    rw [hpath]
    cbv
  refine ⟨proper_oneRoot, hlies, hfile, ?_⟩
  rw [placeOne_of_allowed .empty hjudge]
  rcases source_lost (w := ⟨oneRoot, []⟩) proper_oneRoot hlies rfl hend hlocate
    (List.prefix_refl _) with hgone | ⟨-, k, hDk, hne, hsome⟩
  · exact hgone _ (List.prefix_refl _)
  · -- below a file there is nothing
    exact absurd (isDirectory_of_below hsome hDk (Ne.symm hne)) (by simp [hfile])

end Assets

end ModuleBuild
