/-
  ModuleBuild.Proofs.FileTree.InPlace
  ───────────────────────────────────
  **COPYING IN PLACE OF WHAT IS THERE.**

  Copying anew removes what lies at the destination, makes the directories
  above it, and copies.  In a tree without links nothing else changes, and if
  it succeeds the destination is as the source.  If the system takes all paths
  that are met, it fails only where a file stands on the way, and then nothing
  was there to be removed, and nothing changes.

  Main results:
    * `copyPath_inPlace` — what a copy to a path that names nothing comes to;
    * `renew_inPlace` — what copying anew comes to.
-/
import ModuleBuild.Proofs.FileTree.Renewing
import ModuleBuild.Proofs.FileTree.WholeCopy

namespace ModuleBuild

open FileTree

namespace Path

/-- The path of the directory above a destination, and its place. -/
theorem Ended.exists_above {t : FileTree} {dest : Text} (hdest : Ended dest) (hproper : Proper t) :
    ∃ root init n, t.absolute dest = Path.written root (init ++ [n]) ∧ Path.IsRoot root ∧ root ≠ [] ∧
      (∀ m ∈ init, Path.IsName m) ∧ Path.IsName n ∧
      Path.dirName (t.absolute dest) = Path.written root init ∧
      init.map Utf8.nameForm = (t.endOf dest).dropLast := by
  obtain ⟨root', init', n, rfl, hroot', htidy, hn⟩ := hdest
  obtain ⟨root, init, habs, hroot, hne, hinit, -⟩ := exists_absolute hproper hroot' htidy hn
  refine ⟨root, init, n, habs, hroot, hne, hinit, hn, ?_, ?_⟩
  · rw [habs, Path.dirName_written hroot (isName_parts hinit) hn.1]
  · rw [← placeOf_absolute hproper, habs, placeOf, Path.names_written hroot, List.map_append,
      List.map_singleton, List.dropLast_concat]
    intro m hm
    rcases List.mem_append.1 hm with hm | hm
    · exact (hinit m hm).1
    · rw [List.mem_singleton.1 hm]
      exact hn.1

end Path

namespace FileTree

open ModuleBuild.Path (Ended)

variable {t t' : FileTree} {source dest : Text} {dir l : Location} {ns : List Text}

/-! ## §1. The way to a destination. -/

/-- Names settle where they end, if no link is met. -/
theorem Settles.eq_append (h : Settles t dir ns l) (hfree : LinkFree t)
    (hns : ∀ m ∈ ns, Path.IsName m) : l = dir ++ ns.map Utf8.nameForm := by
  obtain ⟨xs, ys, d, rfl, hxs, rfl, -, -⟩ := h
  rw [hxs.eq_append (fun m hm => hns m (List.mem_append_left _ hm)) fun k path _ _ => hfree.ne_link _ _,
    List.map_append, List.append_assoc]

theorem Opened.linkFree (h : Opened t t' l) (hfree : LinkFree t) : LinkFree t' := by
  intro k path
  show t'.entryAt? k ≠ _
  rcases h k with heq | ⟨-, hdir, -⟩
  · rw [heq]
    exact hfree.ne_link k path
  · rw [hdir]
    simp

/-! ## §2. Copies to a path that names nothing. -/

/-- What a copy to a destination comes to, whatever was there. -/
structure PutInPlace (source dest : Text) (t : FileTree) (room : Prop) (r : Except Failure Unit)
    (t' : FileTree) : Prop where
  proper : Proper t'
  free : LinkFree t'
  workingDir : t'.workingDir = t.workingDir
  outside : ∀ k, ¬ t.endOf dest <+: k → t'.entryAt? k = t.entryAt? k
    ∨ t.entryAt? k = none ∧ t'.entryAt? k = some .directory ∧ k <+: t.endOf dest
  same : r = .ok () → ∀ q, t'.entryAt? (t.endOf dest ++ q) = t.entryAt? (t.endOf source ++ q)
  /-- If there is room it succeeds; or it is refused as the directory above is not there, and nothing
  changes. -/
  refused : room → r = .ok ()
    ∨ (∃ failure, r = .error failure ∧ failure.isSystemFault = true)
      ∧ t.entryAt? (t.endOf dest).dropLast ≠ some .directory ∧ ∀ k, t'.entryAt? k = t.entryAt? k

/-- There is room for a copy: the system takes the path of everything at the source, of what is made
for it, and of the directory above; and the destination does not hold the directory that its path
starts from. -/
structure RoomFor (source dest : Text) (t : FileTree) : Prop where
  takes : TakesBelow source dest t
  above : Fits (Path.dirName (t.absolute dest))
  start : ¬ t.endOf dest <+: t.startOf dest

/-- What is supplied stays so while other places change. -/
theorem Supplied.of_same (h : Supplied source dest t) (hproper : Proper t') (hfree : LinkFree t')
    (hdir : t'.workingDir = t.workingDir)
    (hsame : ∀ q, t'.entryAt? (t.endOf source ++ q) = t.entryAt? (t.endOf source ++ q)) :
    Supplied source dest t' := by
  have hends : ∀ p, t'.endOf p = t.endOf p := endOf_eq hdir
  refine ⟨hproper, hfree, h.sourceEnded, h.destEnded, ?_, ?_, fun q hq => ?_⟩
  · rw [hends, hends]
    exact h.apart
  · have h0 := hsame []
    rw [List.append_nil] at h0
    rw [hends, h0]
    exact h.present
  · rw [hends, hsame] at hq
    exact h.forms q hq

theorem Supplied.exists_parent (h : Supplied source dest t) :
    ∃ d n, t.endOf dest = d ++ [n] ∧ (t.endOf dest).dropLast = d := by
  obtain ⟨init, n, -, -, -, hend⟩ := h.destEnded.exists_end t
  exact ⟨_, _, hend, by rw [hend, List.dropLast_concat]⟩

/-- The directories that are made above a destination leave the source, and the destination. -/
theorem Supplied.opened (h : Supplied source dest t) (hopen : Opened t t' (t.endOf dest).dropLast)
    (q : Location) :
    t'.entryAt? (t.endOf source ++ q) = t.entryAt? (t.endOf source ++ q) ∧
      t'.entryAt? (t.endOf dest ++ q) = t.entryAt? (t.endOf dest ++ q) := by
  obtain ⟨d, n, hend, hparent⟩ := h.exists_parent
  have hup : (t.endOf dest).dropLast <+: t.endOf dest := by
    rw [hend, List.dropLast_concat]
    exact List.prefix_append ..
  constructor
  · rcases hopen (t.endOf source ++ q) with heq | ⟨-, -, hpre⟩
    · exact heq
    · exact absurd (((List.prefix_append _ q).trans hpre).trans hup) h.apart.2
  · rcases hopen (t.endOf dest ++ q) with heq | ⟨-, -, hpre⟩
    · exact heq
    · have hself : d ++ [n] <+: d := by
        rw [hparent] at hpre
        rw [← hend]
        exact (List.prefix_append _ q).trans hpre
      exact absurd hself (not_prefix_of_concat d n)

theorem Supplied.way_of_opened (h : Supplied source dest t)
    (hopen : Opened t t' (t.endOf dest).dropLast) (k : Location) : t'.entryAt? k = t.entryAt? k
      ∨ t.entryAt? k = none ∧ t'.entryAt? k = some .directory ∧ k <+: t.endOf dest := by
  obtain ⟨d, n, hend, hparent⟩ := h.exists_parent
  rcases hopen k with heq | ⟨hnone, hnew, hpre⟩
  · exact .inl heq
  · refine .inr ⟨hnone, hnew, hpre.trans ?_⟩
    rw [hparent, hend]
    exact List.prefix_append ..

/-- A change of the way to a destination, and of nothing else. -/
theorem Supplied.putInPlace_of_opened {room : Prop} {failure : Failure} (h : Supplied source dest t)
    (hproper : Proper t') (hdir : t'.workingDir = t.workingDir)
    (hopen : Opened t t' (t.endOf dest).dropLast)
    (hrefused : room → failure.isSystemFault = true
      ∧ t.entryAt? (t.endOf dest).dropLast ≠ some .directory ∧ ∀ k, t'.entryAt? k = t.entryAt? k) :
    PutInPlace source dest t room (.error failure) t' := by
  exact ⟨hproper, hopen.linkFree h.free, hdir, fun k _ => h.way_of_opened hopen k, nofun,
    fun hr => .inr ⟨⟨failure, rfl, (hrefused hr).1⟩, (hrefused hr).2⟩⟩

end FileTree

namespace Edit

open FileTree

variable {t t' : FileTree} {source dest : Text} {r : Except Failure Unit}

/-- If a file stands on the way, no directory above the destination is made. -/
theorem Raised.same_of_error {root : Text} {ns : List Text} (h : Raised root ns t r t')
    (hfits : Fits (Path.written root ns)) (hr : r ≠ .ok ()) (k : Location) :
    t'.entryAt? k = t.entryAt? k := by
  have hblocked : ¬ ClearWay t (ns.map Utf8.nameForm) := fun hclear => hr (h.ok_iff.2 ⟨hfits, hclear⟩)
  rcases h.kept k with heq | ⟨hpre, hnone, -, -, hclear⟩
  · exact heq
  · unfold ClearWay at hblocked
    push Not at hblocked
    obtain ⟨j, content, hj, hfile⟩ := hblocked
    rcases List.prefix_or_prefix_of_prefix hj hpre with hjk | hkj
    · exact absurd hfile (hclear j content hjk)
    · rw [entryAt?_eq_none_of_below hnone hkj] at hfile
      cases hfile

/-- No file stands on the way to a directory. -/
theorem clearWay_of_directory {P : Location} (h : t.entryAt? P = some .directory) : ClearWay t P := by
  intro k content hk hfile
  rw [isDirectory_of_above h hk] at hfile
  cases hfile

/-- What a copy comes to once the directories above its destination are there. -/
theorem copyOver_inPlace (h : Supplied source dest t) {t1 : FileTree} (hproper : Proper t1)
    (hdir : t1.workingDir = t.workingDir) (hopen : Opened t t1 (t.endOf dest).dropLast)
    (hstart : t1.entryAt? (t1.startOf dest) = some .directory)
    (hparent : t1.entryAt? (t1.endOf dest).dropLast = some .directory)
    (hvacant : t.entryAt? (t.endOf dest) = none ∨ ¬ Fits dest)
    (hrun : (copyOver source dest).runOn t1 = (r, t')) :
    PutInPlace source dest t (TakesBelow source dest t) r t' := by
  have hends : ∀ p, t1.endOf p = t.endOf p := endOf_eq hdir
  have hsame := h.opened hopen
  have hsupplied : Supplied source dest t1 :=
    h.of_same hproper (hopen.linkFree h.free) hdir fun q => (hsame q).1
  by_cases hnone : t1.entryAt? (t1.endOf dest) = none
  · have hwhole := copyOver_whole ⟨hsupplied, hstart, hparent, hnone⟩
    rw [hrun] at hwhole
    obtain ⟨hwithin, hcopied, hdone⟩ := hwhole
    rw [hends] at hwithin
    simp only [hends] at hcopied
    refine ⟨hwithin.proper hproper, hwithin.linkFree hsupplied.free,
      hwithin.workingDir.trans hdir, fun k hk => ?_, fun hr q => ?_, fun hroom => .inl ?_⟩
    · rw [hwithin.outside k hk]
      exact h.way_of_opened hopen k
    · rw [hcopied hr, (hsame q).1]
    · refine hdone fun q hq => hroom q ?_
      rwa [hends, (hsame q).1] at hq
  · -- the system does not take the path of the destination, so nothing is copied there
    have hunfit : ¬ Fits dest := by
      have hdest := (hsame []).2
      rw [List.append_nil] at hdest
      rw [hends, hdest] at hnone
      exact hvacant.resolve_left hnone
    obtain ⟨root', init', n', d', rfl, hend, hland⟩ := exists_landing hproper hsupplied.destEnded
      hstart hparent
    rw [hend] at hnone
    obtain ⟨hr, hwd, hproper', hkept⟩ := copyOver_refused hland hnone
      (fun aim place hplace => hunfit (hsupplied.destEnded.locate_cases hsupplied.free hplace).1) hrun
    have htree : Opened t t' (t.endOf (Path.written root' (init' ++ [n']))).dropLast := by
      intro k
      rw [hkept k]
      exact hopen k
    cases r with
    | ok u => exact absurd rfl hr
    | error failure =>
      refine h.putInPlace_of_opened (hproper' hproper) (hwd.trans hdir) htree ?_
      exact fun hroom => absurd (TakesBelow.fits hroom h.present).2 hunfit

/-- **What a copy to a path that names nothing comes to.** -/
theorem copyPath_inPlace (h : Supplied source dest t)
    (hvacant : t.entryAt? (t.endOf dest) = none ∨ ¬ Fits dest)
    (hrun : (copyPath source dest).runOn t = (r, t')) :
    PutInPlace source dest t
      (TakesBelow source dest t ∧ Fits (Path.dirName (t.absolute dest))
        ∧ t.entryAt? (t.startOf dest) = some .directory) r t' := by
  obtain ⟨root, init, n, habs, hroot, hne, hinit, hn, habove, hplace⟩ := h.destEnded.exists_above h.proper
  rcases runOn_copyPath source dest t with ⟨hgone, failure, hfail⟩ | ⟨hstart, r1, t1, hmake, hlast⟩
  · rw [hfail] at hrun
    cases hrun
    exact h.putInPlace_of_opened h.proper rfl (fun k => .inl rfl) fun hroom => absurd hroom.2.2 hgone
  have hmade : Made true t [] init r1 t1 := makeAbove_made habs hroot hne hinit hn hmake
  have hproper := hmade.proper h.proper
  have hopen : Opened t t1 (t.endOf dest).dropLast := by
    rcases hmade.opened with hsame | ⟨l, hsettles, -, hopen⟩
    · exact fun k => .inl (hsame k)
    · have hl := hsettles.eq_append h.free hinit
      rw [List.nil_append, hplace] at hl
      rwa [← hl]
  rcases hlast with ⟨failure, rfl, hlast⟩ | ⟨rfl, hlast⟩
  · rw [hlast] at hrun
    cases hrun
    refine h.putInPlace_of_opened hproper hmade.workingDir hopen fun hroom => ?_
    have hfits := hroom.2.1
    rw [habove] at hmake hfits
    have hraised := makeDirectories_raised hroot hne h.free hinit hfits.check hmake
    refine ⟨hraised.fault failure rfl, fun hdir => ?_, hraised.same_of_error hfits (by simp)⟩
    rw [← hplace] at hdir
    cases hraised.ok_iff.2 ⟨hfits, clearWay_of_directory hdir⟩
  · rw [hlast] at hrun
    -- the directories above are there
    have hstart1 : t1.entryAt? (t1.startOf dest) = some .directory := by
      rw [startOf_eq hmade.workingDir]
      exact hmade.extends _ _ hstart
    have hparent1 : t1.entryAt? (t1.endOf dest).dropLast = some .directory := by
      obtain ⟨d, hleads, -⟩ := hmade.leads rfl
      have hd := hleads.eq_append hinit fun k path _ _ => (hopen.linkFree h.free).ne_link _ _
      rw [endOf_eq hmade.workingDir, ← hplace, ← List.nil_append (init.map _), ← hd]
      exact hleads.isDirectory (entryAt?_root t1)
    have hput := copyOver_inPlace h hproper hmade.workingDir hopen hstart1 hparent1 hvacant hrun
    exact { hput with refused := fun hroom => hput.refused hroom.1 }

/-! ## §3. Copies in place of what is there. -/

theorem Cleared.proper {D : Location} (h : Cleared dest D t t') (hproper : Proper t) : Proper t' where
  names k hk := by
    refine hproper.names k fun hnone => hk ?_
    by_cases hD : D <+: k
    · by_cases hfits : Fits dest
      · exact h.gone hfits k hD
      · rw [h.kept hfits, hnone]
    · rw [h.outside k hD, hnone]
  workingDir := by
    rw [h.workingDir]
    exact hproper.workingDir

/-- Where nothing is, nothing is cleared. -/
theorem Cleared.same_of_none {D : Location} (h : Cleared dest D t t') (hnone : t.entryAt? D = none)
    (k : Location) : t'.entryAt? k = t.entryAt? k := by
  by_cases hD : D <+: k
  · by_cases hfits : Fits dest
    · rw [h.gone hfits k hD, entryAt?_eq_none_of_below hnone hD]
    · exact h.kept hfits k
  · exact h.outside k hD

/-- **What copying anew comes to.** -/
theorem renew_inPlace (h : Supplied source dest t)
    (hstart : t.entryAt? (t.startOf dest) = some .directory)
    (hrun : (renew source dest).runOn t = (r, t')) :
    PutInPlace source dest t (RoomFor source dest t) r t' := by
  obtain ⟨t1, hclear, hcleared⟩ := clearPath_cleared h.free h.destEnded
  unfold renew at hrun
  rw [runOn_bind, hclear] at hrun
  dsimp only at hrun
  have hends : ∀ p, t1.endOf p = t.endOf p := endOf_eq hcleared.workingDir
  have hsource : ∀ q, t1.entryAt? (t.endOf source ++ q) = t.entryAt? (t.endOf source ++ q) := fun q =>
    hcleared.outside _ (not_prefix_of_apart h.apart)
  have hput := copyPath_inPlace
    (h.of_same (hcleared.proper h.proper) (hcleared.linkFree h.free) hcleared.workingDir hsource)
    (by
      rw [hends, or_iff_not_imp_right, not_not]
      exact fun hfits => hcleared.gone hfits _ List.prefix_rfl) hrun
  refine ⟨hput.proper, hput.free, hput.workingDir.trans hcleared.workingDir, fun k hk => ?_,
    fun hr q => ?_, fun hroom => ?_⟩
  · have hway := hput.outside k (by rwa [hends])
    rwa [hends, hcleared.outside k hk] at hway
  · have hsame := hput.same hr q
    rwa [hends, hends, hsource] at hsame
  · have habove : ¬ t.endOf dest <+: (t.endOf dest).dropLast := by
      obtain ⟨d, n, hend, hparent⟩ := h.exists_parent
      rw [hparent, hend]
      exact not_prefix_of_concat d n
    have hroom1 : TakesBelow source dest t1 ∧ Fits (Path.dirName (t1.absolute dest))
        ∧ t1.entryAt? (t1.startOf dest) = some .directory := by
      refine ⟨fun q hq => hroom.takes q ?_, ?_, ?_⟩
      · rwa [hends, hsource] at hq
      · unfold absolute
        rw [hcleared.workingDir]
        exact hroom.above
      · rw [startOf_eq hcleared.workingDir, hcleared.outside _ hroom.start, hstart]
    rcases hput.refused hroom1 with hok | ⟨hfault, hgone, hkept⟩
    · exact .inl hok
    · -- where the directory above is not there, there was nothing to clear
      rw [hends, hcleared.outside _ habove] at hgone
      have hnone : t.entryAt? (t.endOf dest) = none := by
        by_contra hsome
        exact hgone (isDirectory_of_below hsome (List.dropLast_prefix _)
          fun e => habove ⟨[], by rw [List.append_nil, e]⟩)
      exact .inr ⟨hfault, hgone, fun k => (hkept k).trans (hcleared.same_of_none hnone k)⟩

/-! ## §4. Copies for which there is no room. -/

/-- A copy to a path that the system does not take is refused once the directories above it are made. -/
theorem renew_unfit {d : Location} {n : Text} (hfree : LinkFree t) (hs : Path.Straight source)
    (hsfits : Fits source) (hsome : t.entryAt? (placeOf source) ≠ none) (hd : Path.Straight dest)
    (hD : placeOf dest = d ++ [n]) (hcheck : checkPath dest = .ok ()) (hunfit : ¬ Fits dest)
    (habove : Fits (Path.dirName dest)) (hway : ClearWay t d) :
    ∃ failure t', (renew source dest).runOn t = (.error failure, t') ∧ failure.isSystemFault = true ∧
      t'.entryAt? d = some .directory := by
  obtain ⟨init, last, hnames, hinit, -⟩ := names_of_placeOf hD
  obtain ⟨hdir, hdirNames⟩ := hd.dirName hnames
  obtain ⟨root, hroot, hne, hwritten⟩ := hdir.written
  have hisName := hdir.isName
  rw [hdirNames] at hwritten hisName
  obtain ⟨t1, hclear, hcleared⟩ := clearPath_cleared hfree (hd.ended hnames)
  have hkept := hcleared.kept hunfit
  rcases hmake : (makeDirectories true (Path.dirName dest)).runOn t1 with ⟨r2, t2⟩
  have hraised : Raised root init t1 r2 t2 := by
    rw [hwritten] at hmake
    exact makeDirectories_raised hroot hne (hcleared.linkFree hfree) hisName (hwritten ▸ habove.check) hmake
  have hok : r2 = .ok () := by
    refine hraised.ok_iff.2 ⟨hwritten ▸ habove, fun k content hk => ?_⟩
    rw [hkept]
    exact hway k content (hinit ▸ hk)
  subst hok
  have hfree2 := hraised.linkFree (hcleared.linkFree hfree)
  have hparent : t2.entryAt? d = some .directory :=
    hraised.directory (hcleared.linkFree hfree) hroot hisName rfl (hinit ▸ List.prefix_rfl)
  have hsource : t2.entryAt? (placeOf source) ≠ none := by
    rcases hraised.kept (placeOf source) with hsame | ⟨-, hnone, -⟩
    · rwa [hsame, hkept]
    · rw [hkept] at hnone
      exact absurd hnone hsome
  obtain ⟨failure, hrun, hsystem⟩ := copyOver_unfit hfree2 hd hcheck hunfit hs hsfits hsource hD
    ((namesDirectory_iff hfree2 hdir).2
      ⟨habove, by unfold placeOf; rw [hdirNames, hinit]; exact hparent⟩)
  refine ⟨failure, t2, ?_, hsystem, hparent⟩
  unfold renew
  rw [runOn_bind, hclear]
  dsimp only
  rw [runOn_copyPath_straight source hd, hmake]
  exact hrun

end Edit

end ModuleBuild
