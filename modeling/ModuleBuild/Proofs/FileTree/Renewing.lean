/-
  ModuleBuild.Proofs.FileTree.Renewing
  ────────────────────────────────────
  **COPYING ANEW.**

  To copy something anew, what lies at the destination is removed, the
  directories above it are made, and the copy is made.  In a tree without
  links all this happens at the destination and on the way to it, and what is
  there in the end mirrors the source, unless the system does not take the
  path at all.

  Two trees that agree on the source, and of which one lacks directories on
  the way, are treated alike whatever was at the destination before: the copy
  succeeds in both or in neither, and what it leaves at the destination is
  the same.

  Main results:
    * `renew_renewed` — what copying anew leaves in two such trees;
    * `Renewed.left`, `Renewed.right` — in particular, what it leaves in one.
-/
import ModuleBuild.Proofs.FileTree.Ended
import ModuleBuild.Proofs.FileTree.Mirroring

namespace ModuleBuild

open FileTree

namespace FileTree

variable {t u : FileTree} {S D d : Location} {n : Text}

/-- Two trees that agree on a source and nearly on the way to a destination, which lie apart. -/
structure Meets (S D : Location) (t u : FileTree) : Prop where
  proper : Proper t
  freeLeft : LinkFree t
  freeRight : LinkFree u
  apart : ¬ D <+: S ∧ ¬ S <+: D
  present : t.entryAt? S ≠ none
  source : ∀ k, k <+: S ∨ S <+: k → t.entryAt? k = u.entryAt? k
  way : ∀ k, k <+: D → k ≠ D → NearlySame t u k

/-- What copying anew leaves in a tree. -/
structure Renews (S D : Location) (t t' : FileTree) : Prop where
  free : LinkFree t'
  workingDir : t'.workingDir = t.workingDir
  outside : ∀ k, ¬ D <+: k → t'.entryAt? k = t.entryAt? k
    ∨ t.entryAt? k = none ∧ t'.entryAt? k = some .directory ∧ k <+: D
  inside : ∀ q, t'.entryAt? (D ++ q) = none ∨ t'.entryAt? (D ++ q) = t.entryAt? (D ++ q)
    ∨ t'.entryAt? (D ++ q) = t.entryAt? (S ++ q)

/-- What copying anew leaves in two trees. -/
structure Renewed (S D : Location) (t u t' u' : FileTree) : Prop where
  left : Renews S D t t'
  right : Renews S D u u'
  /-- The destination is the same, or as it was where the system does not take its path. -/
  dest : (∀ q, t'.entryAt? (D ++ q) = u'.entryAt? (D ++ q))
    ∨ ∀ q, t'.entryAt? (D ++ q) = t.entryAt? (D ++ q) ∧ u'.entryAt? (D ++ q) = u.entryAt? (D ++ q)
  way : ∀ k, k <+: D → k ≠ D →
    NearlySame t' u' k ∧ (t.entryAt? k = u.entryAt? k → t'.entryAt? k = u'.entryAt? k)

end FileTree

namespace Edit

variable {t u t' u' t1 u1 : FileTree} {S D d : Location} {n source dest : Text}

/-! ## §1. Clearing the destination. -/

/-- Removes what lies at a path, if anything. -/
def clearPath (dest : Text) : Edit Unit := do
  if (← get).pathOccupied dest then removePath dest

/-- What is left when a destination is cleared. -/
structure Cleared (dest : Text) (D : Location) (t t' : FileTree) : Prop where
  workingDir : t'.workingDir = t.workingDir
  outside : ∀ k, ¬ D <+: k → t'.entryAt? k = t.entryAt? k
  gone : Fits dest → ∀ k, D <+: k → t'.entryAt? k = none
  kept : ¬ Fits dest → ∀ k, t'.entryAt? k = t.entryAt? k

theorem Cleared.linkFree (h : Cleared dest D t t') (hfree : LinkFree t) : LinkFree t' := by
  intro k path hk
  by_cases hfits : Fits dest
  · by_cases hD : D <+: k
    · have hnone := h.gone hfits k hD
      rw [show t'.entryAt? k = some (.link path) from hk] at hnone
      cases hnone
    · exact hfree k path ((h.outside k hD).symm.trans hk)
  · exact hfree k path ((h.kept hfits k).symm.trans hk)

theorem clearPath_cleared (hfree : LinkFree t) (hd : Path.Ended dest) :
    ∃ t', (clearPath dest).runOn t = (.ok (), t') ∧ Cleared dest (t.endOf dest) t t' := by
  unfold clearPath
  rw [runOn_bind, runOn_get]
  dsimp only
  by_cases hocc : t.pathOccupied dest = true
  · obtain ⟨t', hrun, hdir, hentry⟩ := hd.removePath hfree hocc
    rw [if_pos hocc, hrun]
    have hfits : Fits dest := ((hd.pathOccupied_iff hfree).1 hocc).1
    refine ⟨t', rfl, hdir, fun k hk => ?_, fun _ k hk => ?_, fun hno => absurd hfits hno⟩
    · rw [hentry, if_neg hk]
    · rw [hentry, if_pos hk]
  · rw [if_neg hocc]
    refine ⟨t, rfl, rfl, fun _ _ => rfl, fun hfits k hk => ?_, fun _ _ => rfl⟩
    rw [hd.pathOccupied_iff hfree] at hocc
    have hnone : t.entryAt? (t.endOf dest) = none := by
      by_contra hsome
      exact hocc ⟨hfits, hsome⟩
    exact entryAt?_eq_none_of_below hnone hk

/-! ## §2. Copying to a path that the system does not take. -/

/-- A copy to a straight path first makes the directories above it. -/
theorem runOn_copyPath_straight (source : Text) (hd : Path.Straight dest) (t : FileTree) :
    (copyPath source dest).runOn t
      = match (makeDirectories true (Path.dirName dest)).runOn t with
        | (.ok _, t') => (copyOver source dest).runOn t'
        | (.error failure, t') => (.error failure, t') := by
  unfold copyPath
  rw [runOn_bind, run_ask]
  unfold checkWorkingDir
  rw [if_pos (by rw [hd.isAbsolute]; rfl)]
  dsimp only
  rw [runOn_bind, runOn_get]
  dsimp only
  rw [absolute_straight t hd, runOn_bind]
  rcases (makeDirectories true (Path.dirName dest)).runOn t with ⟨failure | x, t'⟩
  · rfl
  · rfl

section Unfit

variable (hfree : LinkFree t) (hd : Path.Straight dest) (hcheck : checkPath dest = .ok ())
  (hunfit : ¬ Fits dest)

include hfree hd hcheck hunfit

/-- A directory is not made at such a path, though the one above it is there. -/
theorem makeDirectories_unfit (hD : placeOf dest = d ++ [n])
    (hparent : t.namesDirectory (Path.dirName dest) = true) :
    ∃ failure, (makeDirectories false dest).runOn t = (.error failure, t)
      ∧ failure.isSystemFault = true := by
  obtain ⟨init, last, hnames, -, -⟩ := names_of_placeOf hD
  have hlast : Path.IsName last := hd.isName last (by rw [hnames]; simp)
  have hsplit : splitLast dest = (Path.dirName dest, last) := by
    obtain ⟨root, hroot, -, hwritten⟩ := hd.written
    have hinit : ∀ m ∈ init, Path.IsPart m := fun m hm =>
      (hd.isName m (by rw [hnames]; exact List.mem_append_left _ hm)).1
    rw [hwritten, hnames, Path.dirName_written hroot hinit hlast.1]
    exact splitLast_written hroot hinit hlast.1
  have hexists : t.pathExists (Path.dirName dest) = true := by
    have hparent' := (namesDirectory_iff hfree (hd.dirName hnames).1).1 hparent
    exact (pathExists_iff hfree (hd.dirName hnames).1).2
      ⟨hparent'.1, ne_none_of_eq_some hparent'.2⟩
  obtain ⟨failure, hrefused, hsystem⟩ := makeDirectory_refused hfree hd hcheck
    fun _ _ _ hfits => absurd hfits hunfit
  refine ⟨failure, ?_, hsystem⟩
  rw [runOn_makeDirectories_step _ _ _ (by rw [hsplit]; exact hlast.2.1), hsplit,
    if_neg (by simp [hexists])]
  unfold makeLast
  rw [runOn_tryCatch, run_change, hrefused]
  simp only [runOn_bind, runOn_get]
  rw [if_pos (by simp)]
  rfl

/-- No file is written there. -/
theorem writeBytes_unfit (content : Bytes) :
    ∃ failure, t.writeBytes dest content = .error failure ∧ failure.isSystemFault = true := by
  obtain ⟨failure, hlocate, hsystem⟩ : ∃ failure, t.locate .file dest = .error failure
      ∧ failure.isSystemFault = true := locate_of_unfit hfree hd hcheck hunfit
  refine ⟨failure, ?_, hsystem⟩
  unfold writeBytes fileAt
  rw [hlocate]
  rfl

/-- The bytes of a file are not copied there, whether they can be read or not. -/
theorem copyBytes_unfit (hs : Path.Straight source) (hsfits : Fits source)
    (hsome : t.entryAt? (placeOf source) ≠ none) :
    ∃ failure, (copyBytes source dest).runOn t = (.error failure, t)
      ∧ failure.isSystemFault = true := by
  have hexists : t.pathExists dest = false := by
    rw [Bool.eq_false_iff]
    intro h
    exact hunfit ((pathExists_iff hfree hd).1 h).1
  have hsame : sameEntry t source dest = false := by
    unfold sameEntry
    split
    · rename_i l m _ hm
      exact absurd (locate_cases hfree hd hm).1 hunfit
    · rfl
  unfold copyBytes
  rw [runOn_bind, run_ask, hsfits.check]
  dsimp only
  rw [runOn_bind, run_ask, hcheck]
  dsimp only
  rw [runOn_bind, runOn_view]
  dsimp only
  rw [hsame, if_neg (by simp), runOn_bind, run_ask]
  cases hread : t.readBytes source with
  | error failure =>
    refine ⟨failure, rfl, ?_⟩
    unfold readBytes at hread
    rw [locate_of_fits hfree hs hsfits hsome] at hread
    dsimp only at hread
    split at hread
    · cases hread
    · cases hread
      rfl
  | ok content =>
    obtain ⟨failure, hwrite, hfault⟩ := writeBytes_unfit hfree hd hcheck hunfit content
    dsimp only
    rw [runOn_tryCatch, run_change, hwrite]
    dsimp only
    -- that it is a directory is told in other words, as nothing is there
    split
    · rw [runOn_bind, runOn_get]
      dsimp only
      rw [hexists, if_neg (by simp)]
      exact ⟨_, rfl, rfl⟩
    · exact ⟨_, rfl, hfault⟩

/-- **A path that the system does not take is refused**, and nothing is copied there. -/
theorem copyOver_unfit (hs : Path.Straight source) (hsfits : Fits source)
    (hsome : t.entryAt? (placeOf source) ≠ none) (hD : placeOf dest = d ++ [n])
    (hparent : t.namesDirectory (Path.dirName dest) = true) :
    ∃ failure, (copyOver source dest).runOn t = (.error failure, t) ∧ failure.isSystemFault = true := by
  unfold copyOver
  rw [runOn_bind, runOn_get]
  dsimp only
  split
  · rename_i hdir
    have hopen := (openDirectory_eq_ok_iff (l := placeOf source) hfree hs).2
      ⟨hsfits, rfl, ((namesDirectory_iff hfree hs).1 hdir).2⟩
    obtain ⟨failure, hrun, hfault⟩ := makeDirectories_unfit hfree hd hcheck hunfit hD hparent
    refine ⟨failure, ?_, hfault⟩
    rw [runOn_copyDirectoryTo, hopen, hrun]
  · have hno : t.namesDirectory dest = false := by
      rw [Bool.eq_false_iff]
      intro h
      exact hunfit ((namesDirectory_iff hfree hd).1 h).1
    unfold copyFile
    rw [runOn_bind, runOn_get]
    dsimp only
    rw [hno, if_neg (by simp)]
    exact copyBytes_unfit hfree hd hcheck hunfit hs hsfits hsome

end Unfit

/-! ## §3. The directories above the destination. -/

/-- A tree in which a destination is cleared and the directories above it are made. -/
structure Readied (S : Location) (dest : Text) (D : Location) (t t' : FileTree) : Prop where
  free : LinkFree t'
  workingDir : t'.workingDir = t.workingDir
  outside : ∀ k, ¬ D <+: k → t'.entryAt? k = t.entryAt? k
    ∨ t.entryAt? k = none ∧ t'.entryAt? k = some .directory ∧ k <+: D
  source : ∀ k, k <+: S ∨ S <+: k → t'.entryAt? k = t.entryAt? k
  gone : Fits dest → ∀ q, t'.entryAt? (D ++ q) = none
  kept : ¬ Fits dest → ∀ q, t'.entryAt? (D ++ q) = t.entryAt? (D ++ q)

theorem Readied.renews (h : Readied S dest D t t') : Renews S D t t' where
  free := h.free
  workingDir := h.workingDir
  outside := h.outside
  inside q := by
    by_cases hfits : Fits dest
    · exact .inl (h.gone hfits q)
    · exact .inr (.inl (h.kept hfits q))

theorem readied {root : Text} {init : List Text} {r : Except Failure Unit} (hfree : LinkFree t)
    (hpresent : t.entryAt? S ≠ none) (hapart : ¬ d ++ [n] <+: S ∧ ¬ S <+: d ++ [n])
    (hcleared : Cleared dest (d ++ [n]) t t1) (hinit : init.map Utf8.nameForm = d)
    (hraised : Raised root init t1 r t') : Readied S dest (d ++ [n]) t t' := by
  -- directories are made above the destination only
  have hcone : ∀ q, t'.entryAt? (d ++ [n] ++ q) = t1.entryAt? (d ++ [n] ++ q) := by
    intro q
    rcases hraised.kept (d ++ [n] ++ q) with hsame | ⟨hk, -⟩
    · exact hsame
    · rw [hinit] at hk
      exact absurd ((List.prefix_append ..).trans hk) (not_prefix_of_concat d n)
  -- outside of the destination, a directory may have been made where nothing was
  have houtside : ∀ k, ¬ d ++ [n] <+: k → t'.entryAt? k = t.entryAt? k
      ∨ t.entryAt? k = none ∧ t'.entryAt? k = some .directory ∧ k <+: d ++ [n] := by
    intro k hk
    rcases hraised.kept k with hsame | ⟨hpre, hnone, hmade, -⟩
    · exact .inl (hsame.trans (hcleared.outside k hk))
    · rw [hcleared.outside k hk] at hnone
      rw [hinit] at hpre
      exact .inr ⟨hnone, hmade, hpre.trans (List.prefix_append ..)⟩
  refine ⟨hraised.linkFree (hcleared.linkFree hfree), hraised.workingDir.trans hcleared.workingDir,
    houtside, ?_, fun hfits q => ?_, fun hunfit q => ?_⟩
  · rintro k (hk | hk)
    · rcases houtside k fun hD => hapart.1 (hD.trans hk) with hsame | ⟨hnone, -⟩
      · exact hsame
      · exact absurd (entryAt?_eq_none_of_below hnone hk) hpresent
    · have hnot : ¬ d ++ [n] <+: k := by
        intro hD
        rcases List.prefix_or_prefix_of_prefix hD hk with h | h
        · exact hapart.1 h
        · exact hapart.2 h
      rcases houtside k hnot with hsame | ⟨-, -, hpre⟩
      · exact hsame
      · exact absurd (hk.trans hpre) hapart.2
  · rw [hcone]
    exact hcleared.gone hfits _ (List.prefix_append ..)
  · rw [hcone]
    exact hcleared.kept hunfit _

/-! ## §4. Copying anew. -/

/-- Copies something in place of what lies at the destination. -/
def renew (source dest : Text) : Edit Unit := do
  clearPath dest
  copyPath source dest

/-- Results that are the same, or both refusals of the system. -/
def SameOutcome (r r' : Except Failure Unit) : Prop :=
  r = r' ∨ ∃ failure failure', r = .error failure ∧ r' = .error failure'
    ∧ failure.isSystemFault = true ∧ failure'.isSystemFault = true

theorem Facing.of_readied (h : Meets S D t u) (ht : Readied S dest D t t') (hu : Readied S dest D u u')
    (habove : ∀ k, k <+: D → k ≠ D →
      t'.entryAt? k = some .directory ∧ u'.entryAt? k = some .directory) : Facing S D t' u' where
  isName k hk hsome := by
    rw [ht.source k (.inr hk)] at hsome
    exact h.proper.names k hsome
  freeLeft := ht.free
  freeRight := hu.free
  apart := h.apart
  source k hk := by rw [ht.source k hk, hu.source k hk, h.source k hk]
  above := habove

/-- What copying anew comes to, once the destination is cleared and the directories above it are made, or
are not. -/
def overReadied (source dest : Text) (r : Except Failure Unit) (t : FileTree) :
    Except Failure Unit × FileTree :=
  match r with
  | .ok _ => (copyOver source dest).runOn t
  | .error failure => (.error failure, t)

theorem runOn_renew (source : Text) (hd : Path.Straight dest) {r : Except Failure Unit}
    (hclear : (clearPath dest).runOn t = (.ok (), t1))
    (hmake : (makeDirectories true (Path.dirName dest)).runOn t1 = (r, t')) :
    (renew source dest).runOn t = overReadied source dest r t' := by
  unfold renew
  rw [runOn_bind, hclear]
  dsimp only
  rw [runOn_copyPath_straight source hd, hmake]
  cases r <;> rfl

/-- The first part of copying anew in two trees: both are readied alike, and the directories above the
destination are made in both or in neither. -/
theorem renew_readied (h : Meets S (d ++ [n]) t u) (hd : Path.Straight dest)
    (hcheck : checkPath dest = .ok ()) (hD : placeOf dest = d ++ [n]) :
    ∃ (rt ru : Except Failure Unit) (t2 u2 : FileTree),
      (renew source dest).runOn t = overReadied source dest rt t2
      ∧ (renew source dest).runOn u = overReadied source dest ru u2
      ∧ Readied S dest (d ++ [n]) t t2 ∧ Readied S dest (d ++ [n]) u u2
      ∧ (∀ k, k <+: d ++ [n] → k ≠ d ++ [n] →
          NearlySame t2 u2 k ∧ (t.entryAt? k = u.entryAt? k → t2.entryAt? k = u2.entryAt? k))
      ∧ ((rt = .ok () ∧ ru = .ok () ∧ Fits (Path.dirName dest) ∧ ∀ k, k <+: d →
            t2.entryAt? k = some .directory ∧ u2.entryAt? k = some .directory)
          ∨ ∃ failure failure', rt = .error failure ∧ ru = .error failure'
              ∧ failure.isSystemFault = true ∧ failure'.isSystemFault = true) := by
  obtain ⟨init, last, hnames, hinit, -⟩ := names_of_placeOf hD
  obtain ⟨hdir, hdirNames⟩ := hd.dirName hnames
  have hinitNames : ∀ m ∈ init, Path.IsName m := by
    rw [← hdirNames]
    exact hdir.isName
  have hcheckDir : checkPath (Path.dirName dest) = .ok () := by
    rw [checkPath_eq_ok_iff, nameable_iff_names] at hcheck ⊢
    rw [hdirNames]
    rw [hnames] at hcheck
    exact fun m hm => hcheck m (List.mem_append_left _ hm)
  obtain ⟨root, hroot, hrootNe, hwritten⟩ := hdir.written
  rw [hdirNames] at hwritten
  have hpresent : u.entryAt? S ≠ none := by
    rw [← h.source S (.inl List.prefix_rfl)]
    exact h.present
  have hshort : ∀ k, k <+: d → ¬ d ++ [n] <+: k := fun k hk hD =>
    not_prefix_of_concat d n (hD.trans hk)
  -- the destination is cleared, and the directories above it are made
  obtain ⟨t1, htclear, ht1⟩ := clearPath_cleared h.freeLeft (hd.ended hnames)
  obtain ⟨u1, huclear, hu1⟩ := clearPath_cleared h.freeRight (hd.ended hnames)
  rw [endOf_straight hd, hD] at ht1 hu1
  have ht1free := ht1.linkFree h.freeLeft
  have hu1free := hu1.linkFree h.freeRight
  rcases htmade : (makeDirectories true (Path.dirName dest)).runOn t1 with ⟨rt, t2⟩
  rcases humade : (makeDirectories true (Path.dirName dest)).runOn u1 with ⟨ru, u2⟩
  refine ⟨rt, ru, t2, u2, runOn_renew source hd htclear htmade, runOn_renew source hd huclear humade,
    ?_⟩
  rw [hwritten] at htmade humade hcheckDir ⊢
  have hraised := makeDirectories_raised hroot hrootNe ht1free hinitNames hcheckDir htmade
  have hraised' := makeDirectories_raised hroot hrootNe hu1free hinitNames hcheckDir humade
  obtain ⟨hiff, hway⟩ := hraised.alike hraised' (by
    intro k hk
    rw [hinit] at hk
    have hnear := h.way k (hk.trans (List.prefix_append ..)) fun e => hshort k hk (e ▸ List.prefix_rfl)
    unfold NearlySame
    rw [ht1.outside k (hshort k hk), hu1.outside k (hshort k hk)]
    exact hnear)
  rw [hinit] at hway
  refine ⟨readied h.freeLeft h.present h.apart ht1 hinit hraised,
    readied h.freeRight hpresent h.apart hu1 hinit hraised', ?_, ?_⟩
  · intro k hk hkne
    rcases List.prefix_concat_iff.1 hk with e | hk
    · exact absurd e hkne
    · have hleft := hway k hk
      rw [ht1.outside k (hshort k hk), hu1.outside k (hshort k hk)] at hleft
      exact hleft
  · cases rt with
    | ok x =>
      have hru := hiff.1 rfl
      refine .inl ⟨rfl, hru, (hraised.ok_iff.1 rfl).1, fun k hk => ?_⟩
      rw [← hinit] at hk
      exact ⟨hraised.directory ht1free hroot hinitNames rfl hk,
        hraised'.directory hu1free hroot hinitNames hru hk⟩
    | error failure =>
      cases ru with
      | ok x => cases hiff.2 rfl
      | error failure' =>
        exact .inr ⟨failure, failure', rfl, rfl, hraised.fault _ rfl, hraised'.fault _ rfl⟩

/-- What is left when nothing is copied. -/
theorem Readied.renewed {t2 u2 : FileTree} (ht : Readied S dest D t t2) (hu : Readied S dest D u u2)
    (hway : ∀ k, k <+: D → k ≠ D →
      NearlySame t2 u2 k ∧ (t.entryAt? k = u.entryAt? k → t2.entryAt? k = u2.entryAt? k)) :
    Renewed S D t u t2 u2 where
  left := ht.renews
  right := hu.renews
  dest := by
    by_cases hfits : Fits dest
    · exact .inl fun q => by rw [ht.gone hfits, hu.gone hfits]
    · exact .inr fun q => ⟨ht.kept hfits q, hu.kept hfits q⟩
  way := hway

/-- What is left when the copy keeps step. -/
theorem renewed_of_mirrors {t2 u2 : FileTree} (h : Meets S D t u) (ht : Readied S dest D t t2)
    (hu : Readied S dest D u u2)
    (hway : ∀ k, k <+: D → k ≠ D →
      NearlySame t2 u2 k ∧ (t.entryAt? k = u.entryAt? k → t2.entryAt? k = u2.entryAt? k))
    (hleft : Mirrors S D t2 u2 t' u') : Renewed S D t u t' u' := by
  have hmirror : ∀ q, t'.entryAt? (D ++ q) = none ∨ t'.entryAt? (D ++ q) = t.entryAt? (S ++ q) := by
    intro q
    rcases hleft.mirror q with hnone | hq
    · exact .inl hnone
    · exact .inr (hq.trans (ht.source _ (.inr (List.prefix_append ..))))
  refine ⟨⟨hleft.freeLeft, hleft.dirLeft.trans ht.workingDir, ?_, ?_⟩,
    ⟨hleft.freeRight, hleft.dirRight.trans hu.workingDir, ?_, ?_⟩, .inl hleft.same, ?_⟩
  · intro k hk
    rw [hleft.outsideLeft k hk]
    exact ht.outside k hk
  · intro q
    exact (hmirror q).imp_right .inr
  · intro k hk
    rw [hleft.outsideRight k hk]
    exact hu.outside k hk
  · intro q
    rw [← hleft.same, ← h.source _ (.inr (List.prefix_append S q))]
    exact (hmirror q).imp_right .inr
  · intro k hk hkne
    have hnot : ¬ D <+: k := fun hD => hkne (hk.eq_of_length_le hD.length_le)
    unfold NearlySame
    rw [hleft.outsideLeft k hnot, hleft.outsideRight k hnot]
    exact hway k hk hkne

/-- **What copying anew leaves in two trees**, of which one lacks directories on the way to the
destination: the result is the same, and so is what lies at the destination. -/
theorem renew_renewed (h : Meets S D t u) (hs : Path.Straight source) (hsfits : Fits source)
    (hS : placeOf source = S) (hd : Path.Straight dest) (hcheck : checkPath dest = .ok ())
    (hD : placeOf dest = D) (hne : D ≠ []) {r r' : Except Failure Unit}
    (ht : (renew source dest).runOn t = (r, t')) (hu : (renew source dest).runOn u = (r', u')) :
    SameOutcome r r' ∧ Renewed S D t u t' u' := by
  obtain ⟨d, n, hdn⟩ := (List.eq_nil_or_concat D).resolve_left hne
  rw [List.concat_eq_append] at hdn
  subst hdn
  obtain ⟨rt, ru, t2, u2, hrunt, hrunu, ht2, hu2, hway, hmade⟩ := renew_readied h hd hcheck hD
  rw [hrunt] at ht
  rw [hrunu] at hu
  unfold overReadied at ht hu
  rcases hmade with ⟨rfl, rfl, hfitsDir, habove⟩ | ⟨failure, failure', rfl, rfl, hsystem, hsystem'⟩
  · dsimp only at ht hu
    have habove' : ∀ k, k <+: d ++ [n] → k ≠ d ++ [n] →
        t2.entryAt? k = some .directory ∧ u2.entryAt? k = some .directory := by
      intro k hk hkne
      rcases List.prefix_concat_iff.1 hk with e | hk
      · exact absurd e hkne
      · exact habove k hk
    by_cases hfits : Fits dest
    · have hface := Facing.of_readied h ht2 hu2 habove'
      have hstart := hface.start (by simpa using ht2.gone hfits []) (by simpa using hu2.gone hfits [])
      obtain ⟨hsame, hleft⟩ := lockstep_copyOver hface hs hd hS hD t2 u2 hstart
      rw [ht, hu] at hsame hleft
      exact ⟨.inl hsame, renewed_of_mirrors h ht2 hu2 hway hleft⟩
    · -- the system takes the path in neither tree
      obtain ⟨init, last, hnames, hinit, -⟩ := names_of_placeOf hD
      have hrefused : ∀ v : FileTree, LinkFree v → v.entryAt? S = t.entryAt? S →
          v.entryAt? d = some .directory →
          ∃ failure, (copyOver source dest).runOn v = (.error failure, v)
            ∧ failure.isSystemFault = true := by
        intro v hfree hsame hdir
        refine copyOver_unfit hfree hd hcheck hfits hs hsfits (by rw [hS, hsame]; exact h.present) hD ?_
        refine (namesDirectory_iff hfree (hd.dirName hnames).1).2 ⟨hfitsDir, ?_⟩
        unfold placeOf
        rw [(hd.dirName hnames).2, hinit]
        exact hdir
      have hsource := h.source S (.inl List.prefix_rfl)
      obtain ⟨failure, hrun, hsystem⟩ := hrefused t2 ht2.free (ht2.source S (.inl List.prefix_rfl))
        (habove d List.prefix_rfl).1
      obtain ⟨failure', hrun', hsystem'⟩ := hrefused u2 hu2.free
        ((hu2.source S (.inl List.prefix_rfl)).trans hsource.symm) (habove d List.prefix_rfl).2
      rw [hrun] at ht
      rw [hrun'] at hu
      cases ht
      cases hu
      exact ⟨.inr ⟨failure, failure', rfl, rfl, hsystem, hsystem'⟩, ht2.renewed hu2 hway⟩
  · cases ht
    cases hu
    exact ⟨.inr ⟨failure, failure', rfl, rfl, hsystem, hsystem'⟩, ht2.renewed hu2 hway⟩

end Edit

end ModuleBuild
