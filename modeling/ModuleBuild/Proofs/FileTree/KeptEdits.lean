/-
  ModuleBuild.Proofs.FileTree.KeptEdits
  ─────────────────────────────────────
  **EDITS THAT KEEP TO SOME GROUNDS.**

  Directories are made, something is removed or copied, all by paths that
  keep to fenced grounds.  In two trees that agree on the grounds each of
  these edits keeps step: it sees the same, gives one result, a failure
  included, and leaves trees that agree, however far it got.

  The paths that a copy makes up are those that it was given, with names
  from the directories behind them, so they keep to the grounds too.

  Main results:
    * `KeepsPath.join` — a path with a name from a directory keeps to the grounds;
    * `makeDirectories_kept`, `removePath_kept` — directories are made in step, and what has a path is removed;
    * `copyPath_kept` — a file or directory is copied in step, links on the way included.
-/
import ModuleBuild.Proofs.FileTree.Keeping
import ModuleBuild.Proofs.FileTree.Preparing
import ModuleBuild.Proofs.Path.NameForm

namespace ModuleBuild

namespace FileTree

variable {t0 t u : FileTree} {g : Grounds} {goal : Location → Prop} {l d : Location} {p root : Text}
  {n : Text} {ns : List Text} {aim : Aim}

/-! ## §1. Paths made from others. -/

/-- A path as a root and names behind it. -/
theorem keepsPath_written (hroot : Path.IsRoot root) (hns : ∀ m ∈ ns, Path.IsPart m) :
    KeepsPath t g goal (Path.written root ns)
      ↔ Keeps t g goal (if root = [] then t.workingDir else []) ns := by
  unfold KeepsPath
  rw [startOf_written hroot hns, Path.names_written hroot hns]

theorem isAbsolute_join_name (hn : Path.IsPart n) (p : Text) :
    Path.isAbsolute (Path.join p n) = Path.isAbsolute p := by
  have hrel := Path.isAbsolute_of_isPart hn
  cases hp : Path.isAbsolute p with
  | true => exact Path.isAbsolute_join hp n
  | false => exact Path.isAbsolute_join_of_relative hp hrel

/-- **A path with a name more**, if it leads home. -/
theorem KeepsPath.join (hf : Fenced t g) (h : KeepsPath t g g.home p) (hn : Path.IsName n) :
    KeepsPath t g g.home (Path.join p n) := by
  unfold KeepsPath startOf
  rw [isAbsolute_join_name hn.1, Path.names_join (Path.isAbsolute_of_isPart hn.1),
    Path.names_of_isPart hn.1]
  exact Keeps.append hf (by simpa using hn) h

/-- A vacant name that a path leads to is the name of a thing. -/
theorem isName_of_vacant {slash : Bool} {links : Nat} (hns : ∀ m ∈ ns, Path.IsPart m)
    (h : follow t aim slash links l ns = .ok (.vacant d n)) : Path.IsName n := by
  fun_induction follow t aim slash links l ns with
  | case6 =>
    rename_i name h1 h2 _ _ _ _
    obtain ⟨-, rfl⟩ := Place.vacant.inj (Except.ok.inj h)
    exact Utf8.isName_nameForm ⟨hns name (List.mem_cons_self ..), h1, h2⟩
  | case2 | case3 | case8 =>
    rename_i ih
    exact ih (fun m hm => hns m (List.mem_cons_of_mem _ hm)) h
  | case14 =>
    rename_i ih
    refine ih (fun m hm => ?_) h
    rcases List.mem_append.1 hm with hm | hm
    · exact isPart_of_mem_names hm
    · exact hns m (List.mem_cons_of_mem _ hm)
  | case1 | case4 | case5 | case7 | case9 | case10 | case11 | case12 | case13 => cases h

/-- The place of a file to be written is at home, under the name of a thing. -/
theorem spot_of_fileAt (hf : Fenced t0 g) (h : Agreeing g t0 t u) (hp : KeepsPath t0 g g.home p)
    {found : Location × Option Bytes} (hfile : t.fileAt p = .ok found) :
    ∃ d n, found.1 = d ++ [n] ∧ Path.IsName n ∧ g.seen (d ++ [n]) := by
  have hspot := (locate_kept hf (fun _ => id) h hp .file).2
  unfold fileAt at hfile
  cases hlocate : t.locate .file p with
  | error failure =>
    rw [hlocate] at hfile
    cases hfile
  | ok place =>
    rw [hlocate] at hfile hspot
    cases place with
    | vacant d n =>
      cases hfile
      obtain ⟨-, -, -, hfollow⟩ := locate_eq_ok_iff.1 hlocate
      exact ⟨d, n, rfl, isName_of_vacant (fun m hm => isPart_of_mem_names hm) hfollow, (hspot _ rfl).1⟩
    | occupied l =>
      dsimp only at hfile
      split at hfile
      · rename_i content hentry
        cases hfile
        rcases List.eq_nil_or_concat l with rfl | ⟨d, n, rfl⟩
        · cases hentry
        · rw [List.concat_eq_append] at hentry hspot ⊢
          have hn := h.proper.names (d ++ [n]) (by rw [hentry]; simp) n (by simp)
          exact ⟨d, n, rfl, hn, (hspot _ rfl).1⟩
      · cases hfile

end FileTree

open FileTree

namespace Edit

variable {t0 : FileTree} {g : Grounds} {p root source dest : Text} {ns : List Text}

section

variable (hf : Fenced t0 g)

include hf

/-! ## §2. Making and removing. -/

theorem makeDirectory_kept (hp : KeepsPath t0 g g.seen p) :
    Lockstep (Agreeing g t0) (change (·.makeDirectory p)) := by
  refine lockstep_change fun t u h => ?_
  unfold makeDirectory onPath
  cases checkPath p with
  | error failure => exact .inl ⟨failure, rfl, rfl⟩
  | ok _ =>
    rw [← lastLocation_kept hf h hp]
    cases hl : t.lastLocation p fun _ => .exists with
    | error fault => exact .inl ⟨_, rfl, rfl⟩
    | ok l =>
      obtain ⟨d, n, rfl, hn, hseen, -⟩ := spot_of_lastLocation hf hf.near h hp hl
      simp only [bind, Except.bind]
      rw [← h.same _ hseen]
      cases t.entryAt? (d ++ [Utf8.nameForm n]) with
      | some e => exact .inl ⟨_, rfl, rfl⟩
      | none => exact .inr ⟨_, _, rfl, rfl, h.put hf (Utf8.isName_nameForm hn) rfl nofun hseen⟩

/-- **Directories are made in step**, those above first. -/
theorem makeDirectories_kept (existOk : Bool) (hroot : Path.IsRoot root)
    (hns : ∀ m ∈ ns, Path.IsPart m ∧ m ≠ Path.here)
    (hp : KeepsPath t0 g g.seen (Path.written root ns)) :
    Lockstep (Agreeing g t0) (makeDirectories existOk (Path.written root ns)) := by
  refine makeDirectories_inStep existOk hroot hns fun ms hms => ?_
  have habove : KeepsPath t0 g g.seen (Path.written root ms) := by
    obtain ⟨rest, rfl⟩ := hms
    rw [keepsPath_written hroot fun m hm => (hns m hm).1] at hp
    exact (keepsPath_written hroot fun m hm => (hns m (List.mem_append_left _ hm)).1).2 hp.init
  exact ⟨seenAlike_kept hf hf.near habove, makeDirectory_kept hf habove⟩

theorem clearDirectory_kept (hp : KeepsPath t0 g g.home p) :
    Lockstep (Agreeing g t0) (change (·.clearDirectory p)) := by
  refine lockstep_change fun t u h => ?_
  unfold clearDirectory
  rw [← (seenAlike_kept hf (fun _ => id) hp).openDirectory h]
  cases hopen : t.openDirectory p with
  | error failure => exact .inl ⟨failure, rfl, rfl⟩
  | ok l =>
    refine .inr ⟨_, _, rfl, rfl, ?_⟩
    rcases List.eq_nil_or_concat l with rfl | ⟨d, n, rfl⟩
    · exact h
    · -- a directory below the root has the name of a thing
      rw [List.concat_eq_append] at hopen ⊢
      obtain ⟨hlocate, hdir⟩ := openDirectory_eq_ok hopen
      have hn := h.proper.names (d ++ [n]) (by rw [hdir]; simp) n (by simp)
      have hseen := ((locate_kept hf (fun _ => id) h hp .target).2 _ hlocate).1
      exact h.put hf hn rfl nofun hseen

theorem removeDirectory_kept (hp : KeepsPath t0 g g.home p) :
    Lockstep (Agreeing g t0) (change (·.removeDirectory p)) := by
  refine lockstep_change fun t u h => ?_
  unfold removeDirectory onPath
  cases checkPath p with
  | error failure => exact .inl ⟨failure, rfl, rfl⟩
  | ok _ =>
    rw [← lastLocation_kept hf h hp]
    cases hl : t.lastLocation p removalFault with
    | error fault => exact .inl ⟨_, rfl, rfl⟩
    | ok l =>
      obtain ⟨d, n, rfl, hn, hseen, hhome⟩ := spot_of_lastLocation hf (fun _ => id) h hp hl
      simp only [bind, Except.bind]
      rw [← h.same _ hseen]
      cases he : t.entryAt? (d ++ [Utf8.nameForm n]) with
      | none => exact .inl ⟨_, rfl, rfl⟩
      | some e =>
        cases e with
        | file content => exact .inl ⟨_, rfl, rfl⟩
        | link path => exact .inl ⟨_, rfl, rfl⟩
        | directory =>
          rw [← namesAt_kept hf h hhome he]
          by_cases hempty : (t.namesAt (d ++ [Utf8.nameForm n])).toList = []
          · simp only [hempty, if_true]
            exact .inr ⟨_, _, rfl, rfl, h.remove⟩
          · simp only [hempty, if_false]
            exact .inl ⟨_, rfl, rfl⟩

theorem removeFile_kept (hp : KeepsPath t0 g g.home p) :
    Lockstep (Agreeing g t0) (change (·.removeFile p)) := by
  refine lockstep_change fun t u h => ?_
  unfold removeFile onPath
  cases checkPath p with
  | error failure => exact .inl ⟨failure, rfl, rfl⟩
  | ok _ =>
    rw [← lastLocation_kept hf h hp]
    cases hl : t.lastLocation p fun _ => .isDirectory with
    | error fault => exact .inl ⟨_, rfl, rfl⟩
    | ok l =>
      -- the place is seen, so both trees have the same there
      obtain ⟨d, n, rfl, hn, hseen, -⟩ := spot_of_lastLocation hf (fun _ => id) h hp hl
      have hgone : ∃ t' u', (Except.ok (t.remove (d ++ [Utf8.nameForm n])) : Except Failure FileTree)
          = .ok t' ∧ (Except.ok (u.remove (d ++ [Utf8.nameForm n])) : Except Failure FileTree) = .ok u'
          ∧ Agreeing g t0 t' u' := ⟨_, _, rfl, rfl, h.remove⟩
      simp only [bind, Except.bind]
      rw [← h.same _ hseen]
      cases t.entryAt? (d ++ [Utf8.nameForm n]) with
      | none => exact .inl ⟨_, rfl, rfl⟩
      | some e =>
        cases e with
        | directory => exact .inl ⟨_, rfl, rfl⟩
        | file content =>
          cases Text.endsWith p "/" with
          | true => exact .inl ⟨_, rfl, rfl⟩
          | false => exact .inr hgone
        | link path =>
          cases Text.endsWith p "/" with
          | true => exact .inl ⟨_, rfl, rfl⟩
          | false => exact .inr hgone

/-- **What has a path is removed in step.** -/
theorem removePath_kept (hp : KeepsPath t0 g g.home p) : Lockstep (Agreeing g t0) (removePath p) := by
  have hseen := seenAlike_kept hf (fun _ => id) hp
  unfold removePath
  refine lockstep_look (fun t => t.namesDirectory p && !t.namesLink p)
    (k := fun directory => if directory then do
        change (·.clearDirectory p)
        change (·.removeDirectory p)
      else change (·.removeFile p))
    (fun t u h => by rw [hseen.namesDirectory h, hseen.namesLink h]) fun t u _ => ?_
  split
  · exact (clearDirectory_kept hf hp).bind fun _ _ _ _ _ => removeDirectory_kept hf hp
  · exact removeFile_kept hf hp

/-! ## §3. Copying. -/

theorem writeBytes_kept (hp : KeepsPath t0 g g.home p) (content : Bytes) :
    Lockstep (Agreeing g t0) (change (·.writeBytes p content)) := by
  refine lockstep_change fun t u h => ?_
  unfold writeBytes
  rw [← (seenAlike_kept hf (fun _ => id) hp).fileAt h]
  cases hfile : t.fileAt p with
  | error failure => exact .inl ⟨failure, rfl, rfl⟩
  | ok found =>
    obtain ⟨d, n, hfound, hn, hseen⟩ := spot_of_fileAt hf h hp hfile
    refine .inr ⟨_, _, rfl, rfl, ?_⟩
    dsimp only
    rw [hfound]
    exact h.put hf hn rfl nofun hseen

/-- The bytes of a file are copied in step. -/
theorem copyBytes_kept (hs : KeepsPath t0 g g.home source) (hd : KeepsPath t0 g g.home dest) :
    Lockstep (Agreeing g t0) (copyBytes source dest) :=
  copyBytes_inStep (seenAlike_kept hf (fun _ => id) hs) (seenAlike_kept hf (fun _ => id) hd)
    fun _ _ content _ _ => writeBytes_kept hf hd content

/-- A file is copied in step. -/
theorem copyFile_kept (hs : KeepsPath t0 g g.home source) (hd : KeepsPath t0 g g.home dest)
    (hlast : Path.IsName (Path.baseName source)) : Lockstep (Agreeing g t0) (copyFile source dest) :=
  copyFile_inStep (seenAlike_kept hf (fun _ => id) hd)
    (fun _ _ _ _ => copyBytes_kept hf hs (hd.join hf hlast)) (copyBytes_kept hf hs hd)

/-- **A directory is copied in step**, level by level. -/
theorem copyDirectoryTo_kept (depth : Nat) :
    ∀ {source root : Text} {ns : List Text}, KeepsPath t0 g g.home source → Path.IsRoot root →
      (∀ m ∈ ns, Path.IsPart m ∧ m ≠ Path.here) → KeepsPath t0 g g.home (Path.written root ns) →
      Lockstep (Agreeing g t0) (copyDirectoryTo depth source (Path.written root ns)) := by
  induction depth using Nat.strong_induction_on with
  | _ depth ih =>
    intro source root ns hs hroot hns hd
    have hseen := seenAlike_kept hf (fun _ => id) hs
    refine copyDirectoryTo_inStep depth hseen (seenAlike_kept hf (fun _ => id) hd) fun t u l h hopen => ?_
    obtain ⟨hlocate, hdir⟩ := openDirectory_eq_ok hopen
    have hhome : g.home l := ((locate_kept hf (fun _ => id) h hs .target).2 _ hlocate).2
    refine ⟨namesAt_kept hf h hhome hdir, makeDirectories_kept hf false hroot hns (hd.mono hf.near), ?_⟩
    -- what is listed has the name of a thing, so the paths of the next level keep to the grounds
    rintro below rfl n hn
    have hname := isName_of_mem_namesAt h.proper hdir hn
    have hs' := hs.join hf hname
    have hd' := hd.join hf hname
    have hlast : Path.IsName (Path.baseName (Path.join source n)) := by
      rw [Path.baseName_join source hname.1]
      exact hname
    have hns' : ∀ m ∈ ns ++ [n], Path.IsPart m ∧ m ≠ Path.here :=
      List.forall_mem_append.2 ⟨hns, by simpa using ⟨hname.1, hname.2.1⟩⟩
    have hjoin := Path.join_written hroot (fun m hm => (hns m hm).1) hname.1
    refine copyEntry_inStep (seenAlike_kept hf (fun _ => id) hs') ?_ (copyFile_kept hf hs' hd' hlast)
    rw [hjoin] at hd' ⊢
    exact ih below (Nat.lt_succ_self below) hs' hroot hns' hd'

/-- **A file or a directory is copied in step**, with the directories above its destination. -/
theorem copyPath_kept (hs : KeepsPath t0 g g.home source) (hlast : Path.IsName (Path.baseName source))
    (hroot : Path.IsRoot root) (hns : ∀ m ∈ ns, Path.IsPart m ∧ m ≠ Path.here)
    (hd : KeepsPath t0 g g.home (Path.written root ns))
    (habove : KeepsPath t0 g g.seen (Path.dirName (t0.absolute (Path.written root ns)))) :
    Lockstep (Agreeing g t0) (copyPath source (Path.written root ns)) := by
  have hmade : Lockstep (Agreeing g t0)
      (makeDirectories true (Path.dirName (t0.absolute (Path.written root ns)))) := by
    have hstraight := (straight_absolute t0 (Path.written root ns)).dirName_of_any
    obtain ⟨root', hroot', -, hwritten⟩ := hstraight.written
    rw [hwritten] at habove ⊢
    exact makeDirectories_kept hf true hroot'
      (fun m hm => ⟨(hstraight.isName m hm).1, (hstraight.isName m hm).2.1⟩) habove
  unfold copyPath
  have hcheck : Lockstep (Agreeing g t0) (ask (·.checkWorkingDir (Path.written root ns))) :=
    lockstep_ask fun t u h => checkWorkingDir_kept hf h _
  refine hcheck.bind fun _ _ _ _ _ => ?_
  -- a path is made absolute alike in all trees with one working directory
  have habs : ∀ v : FileTree, v.workingDir = t0.workingDir →
      v.absolute (Path.written root ns) = t0.absolute (Path.written root ns) := by
    intro v hv
    unfold absolute
    rw [hv]
  refine lockstep_look (fun t => t.absolute (Path.written root ns))
    (k := fun whole => do
      makeDirectories true (Path.dirName whole)
      copyOver source (Path.written root ns))
    (fun t u h => by rw [habs t h.dirLeft, habs u h.dirRight]) fun t u h => ?_
  rw [habs t h.dirLeft]
  refine hmade.bind fun _ _ _ _ _ => ?_
  exact copyOver_inStep (seenAlike_kept hf (fun _ => id) hs) (copyDirectoryTo_kept hf _ hs hroot hns hd)
    (copyFile_kept hf hs hd hlast)

end

end Edit

end ModuleBuild
