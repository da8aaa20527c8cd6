/-
  ModuleBuild.Proofs.FileTree.Lockstep
  ────────────────────────────────────
  **EDITS THAT KEEP STEP.**

  Trees may be related in some way.  An edit keeps step if it returns the
  same in related trees, a failure included, and leaves related trees.

  Edits are put together from questions about paths and single changes.  An
  edit of the program keeps step if the paths it asks about are seen alike
  and its changes keep step; which relation it is has no part in that.

  Main results:
    * `SeenAlike` — a path about which related trees answer the same;
    * `Lockstep.bind`, `Lockstep.mapM` — keeping step is kept by each way of putting edits together;
    * `makeDirectories_inStep`, `copyFile_inStep`, `copyDirectoryTo_inStep` — the edits of the program,
      from what they are made of.
-/
import ModuleBuild.Proofs.FileTree.Delivering
import ModuleBuild.Proofs.FileTree.Outcome

namespace ModuleBuild

namespace FileTree

/-! ## §1. Paths that are seen alike. -/

/-- A path leads to the same place in related trees, and the same lies there. -/
structure SeenAlike (R : FileTree → FileTree → Prop) (p : Text) : Prop where
  locate : ∀ {t u : FileTree}, R t u → ∀ aim, t.locate aim p = u.locate aim p
  entry : ∀ {t u : FileTree}, R t u → ∀ {aim : Aim} {l : Location},
    t.locate aim p = .ok (.occupied l) → t.entryAt? l = u.entryAt? l

namespace SeenAlike

variable {R : FileTree → FileTree → Prop} {t u : FileTree} {p : Text} (hp : SeenAlike R p) (h : R t u)

include hp h

theorem find? : t.find? p = u.find? p := by
  unfold FileTree.find?
  rw [← hp.locate h]
  cases hlocate : t.locate .target p with
  | error failure => rfl
  | ok place =>
    cases place with
    | occupied l => exact hp.entry h hlocate
    | vacant d n => rfl

theorem findLink? : t.findLink? p = u.findLink? p := by
  unfold FileTree.findLink?
  rw [← hp.locate h]
  cases hlocate : t.locate .name p with
  | error failure => rfl
  | ok place =>
    cases place with
    | occupied l => exact hp.entry h hlocate
    | vacant d n => rfl

theorem pathExists : t.pathExists p = u.pathExists p := by
  unfold FileTree.pathExists
  rw [hp.find? h]

theorem pathOccupied : t.pathOccupied p = u.pathOccupied p := by
  unfold FileTree.pathOccupied
  rw [hp.findLink? h]

theorem namesDirectory : t.namesDirectory p = u.namesDirectory p := by
  unfold FileTree.namesDirectory
  rw [hp.find? h]

theorem namesLink : t.namesLink p = u.namesLink p := by
  unfold FileTree.namesLink
  rw [hp.findLink? h]

theorem readBytes : t.readBytes p = u.readBytes p :=
  readBytes_congr_of_locate (hp.locate h .target) fun _ hl => hp.entry h hl

theorem openDirectory : t.openDirectory p = u.openDirectory p := by
  unfold FileTree.openDirectory
  rw [← hp.locate h]
  cases hlocate : t.locate .target p with
  | error failure => rfl
  | ok place =>
    cases place with
    | occupied l =>
      dsimp only
      unfold isDirectory
      rw [hp.entry h hlocate]
    | vacant d n => rfl

theorem fileAt : t.fileAt p = u.fileAt p := by
  unfold FileTree.fileAt
  rw [← hp.locate h]
  cases hlocate : t.locate .file p with
  | error failure => rfl
  | ok place =>
    cases place with
    | occupied l =>
      dsimp only
      rw [hp.entry h hlocate]
    | vacant d n => rfl

end SeenAlike

end FileTree

open FileTree

namespace Edit

/-! ## §2. Edits in step. -/

section Lockstep

variable {α β : Type} {R : FileTree → FileTree → Prop}

/-- In related trees an edit returns the same and leaves related trees. -/
def Lockstep (R : FileTree → FileTree → Prop) (e : Edit α) : Prop :=
  ∀ t u, R t u → (e.runOn t).1 = (e.runOn u).1 ∧ R (e.runOn t).2 (e.runOn u).2

theorem lockstep_pure (a : α) : Lockstep R (pure a : Edit α) := fun _ _ h => ⟨rfl, h⟩

theorem lockstep_throw (failure : Failure) : Lockstep R (throw failure : Edit α) :=
  fun _ _ h => ⟨rfl, h⟩

/-- What follows may use that its argument was returned in a related tree. -/
theorem Lockstep.bind {e : Edit α} {f : α → Edit β} (he : Lockstep R e)
    (hf : ∀ t u a, R t u → (e.runOn t).1 = .ok a → Lockstep R (f a)) : Lockstep R (e >>= f) := by
  intro t u h
  obtain ⟨hsame, hleft⟩ := he t u h
  rw [runOn_bind, runOn_bind]
  rcases ht : e.runOn t with ⟨x, t'⟩
  rcases hu : e.runOn u with ⟨y, u'⟩
  rw [ht, hu] at hsame hleft
  cases hsame
  cases x with
  | error failure => exact ⟨rfl, hleft⟩
  | ok a => exact hf t u a h (by rw [ht]) t' u' hleft

theorem Lockstep.tryCatch {e : Edit α} {handler : Failure → Edit α} (he : Lockstep R e)
    (hhandler : ∀ failure, Lockstep R (handler failure)) : Lockstep R (tryCatch e handler) := by
  intro t u h
  obtain ⟨hsame, hleft⟩ := he t u h
  rw [runOn_tryCatch, runOn_tryCatch]
  rcases ht : e.runOn t with ⟨x, t'⟩
  rcases hu : e.runOn u with ⟨y, u'⟩
  rw [ht, hu] at hsame hleft
  cases hsame
  cases x with
  | error failure => exact hhandler failure t' u' hleft
  | ok a => exact ⟨rfl, hleft⟩

theorem lockstep_ask {f : FileTree → Except Failure α} (hf : ∀ t u, R t u → f t = f u) :
    Lockstep R (ask f) := by
  intro t u h
  rw [run_ask, run_ask]
  exact ⟨hf t u h, h⟩

/-- An edit that goes on with what it sees in the tree. -/
theorem lockstep_look (f : FileTree → β) {k : β → Edit α} (hf : ∀ t u, R t u → f t = f u)
    (hk : ∀ t u, R t u → Lockstep R (k (f t))) : Lockstep R (get >>= fun t => k (f t)) := by
  intro t u h
  rw [runOn_bind, runOn_bind, runOn_get, runOn_get]
  dsimp only
  rw [← hf t u h]
  exact hk t u h t u h

theorem lockstep_view {f : FileTree → β} (hf : ∀ t u, R t u → f t = f u) : Lockstep R (view f) :=
  lockstep_look f hf fun _ _ _ => lockstep_pure _

theorem lockstep_change {f : FileTree → Except Failure FileTree}
    (hf : ∀ t u, R t u → (∃ failure, f t = .error failure ∧ f u = .error failure)
      ∨ ∃ t' u', f t = .ok t' ∧ f u = .ok u' ∧ R t' u') : Lockstep R (change f) := by
  intro t u h
  rw [run_change, run_change]
  rcases hf t u h with ⟨failure, ht, hu⟩ | ⟨t', u', ht, hu, hleft⟩
  · rw [ht, hu]
    exact ⟨rfl, h⟩
  · rw [ht, hu]
    exact ⟨rfl, hleft⟩

theorem Lockstep.mapM {step : β → Edit α} :
    ∀ {items : List β}, (∀ item ∈ items, Lockstep R (step item)) → Lockstep R (items.mapM step)
  | [], _ => by
    rw [List.mapM_nil]
    exact lockstep_pure _
  | item :: items, h => by
    rw [List.mapM_cons]
    refine (h item (List.mem_cons_self ..)).bind fun _ _ _ _ _ => ?_
    refine (mapM fun i hi => h i (List.mem_cons_of_mem _ hi)).bind fun _ _ _ _ _ => ?_
    exact lockstep_pure _

end Lockstep

/-! ## §3. The edits of the program. -/

section Parts

variable {R : FileTree → FileTree → Prop} {p root source dest name : Text} {ns : List Text}

theorem makeLast_inStep (existOk : Bool) (hp : SeenAlike R p)
    (hmake : Lockstep R (change (·.makeDirectory p))) : Lockstep R (makeLast existOk p) := by
  refine hmake.tryCatch fun failure => ?_
  refine lockstep_look (fun t => t.namesDirectory p)
    (k := fun there => if !(failure.isSystemFault && existOk && there) then throw failure else pure ())
    (fun t u h => hp.namesDirectory h) fun t u _ => ?_
  split
  · exact lockstep_throw failure
  · exact lockstep_pure ()

/-- **Directories are made in step**, those above first, if each of them is. -/
theorem makeDirectories_inStep (existOk : Bool) (hroot : Path.IsRoot root)
    (hns : ∀ m ∈ ns, Path.IsPart m ∧ m ≠ Path.here)
    (hway : ∀ ms, ms <+: ns → SeenAlike R (Path.written root ms)
      ∧ Lockstep R (change (·.makeDirectory (Path.written root ms)))) :
    Lockstep R (makeDirectories existOk (Path.written root ns)) := by
  induction ns using List.reverseRecOn with
  | nil =>
    intro t u h
    have hlast : (splitLast (Path.written root [])).2 = [] := by
      rcases hroot with rfl | rfl | rfl <;> decide
    have hstep : ∀ v, (makeDirectories existOk (Path.written root [])).runOn v
        = (makeLast existOk (Path.written root [])).runOn v := by
      intro v
      rw [runOn_makeDirectories_step _ _ _ (by rw [hlast]; decide), if_neg (by simp [hlast])]
    obtain ⟨hseen, hmake⟩ := hway [] List.prefix_rfl
    rw [hstep t, hstep u]
    exact makeLast_inStep existOk hseen hmake t u h
  | append_singleton ns n ih =>
    intro t u h
    have hinit : ∀ m ∈ ns, Path.IsPart m ∧ m ≠ Path.here := fun m hm => hns m (List.mem_append_left _ hm)
    have hn := hns n (by simp)
    have hfront : ns <+: ns ++ [n] := List.prefix_append ..
    obtain ⟨hseen, hmake⟩ := hway _ List.prefix_rfl
    have hlast := makeLast_inStep existOk hseen hmake
    have hsplit := splitLast_written hroot (fun m hm => (hinit m hm).1) hn.1
    have hstep := fun v => runOn_makeDirectories_step existOk (Path.written root (ns ++ [n])) v
      (by rw [hsplit]; exact hn.2)
    rw [hstep t, hstep u, hsplit]
    dsimp only
    rw [← (hway ns hfront).1.pathExists h]
    split
    · -- the directories above are made first; it is no failure if they turn out to be there
      obtain ⟨hsame, hleft⟩ := ih hinit (fun ms hms => hway ms (hms.trans hfront)) t u h
      rcases ht : (makeDirectories existOk (Path.written root ns)).runOn t with ⟨x, t1⟩
      rcases hu : (makeDirectories existOk (Path.written root ns)).runOn u with ⟨y, u1⟩
      rw [ht, hu] at hsame hleft
      cases hsame
      cases x with
      | ok x => exact hlast t1 u1 hleft
      | error failure =>
        dsimp only
        split
        · exact hlast t1 u1 hleft
        · exact ⟨rfl, hleft⟩
    · exact hlast t u h

/-- The bytes of a file are copied in step, if what was read is written in step. -/
theorem copyBytes_inStep (hs : SeenAlike R source) (hd : SeenAlike R dest)
    (hwrite : ∀ t u content, R t u → t.readBytes source = .ok content →
      Lockstep R (change (·.writeBytes dest content))) : Lockstep R (copyBytes source dest) := by
  unfold copyBytes
  refine (lockstep_ask fun _ _ _ => rfl).bind fun _ _ _ _ _ => ?_
  refine (lockstep_ask fun _ _ _ => rfl).bind fun _ _ _ _ _ => ?_
  have hsame : Lockstep R (view (sameEntry · source dest)) := by
    refine lockstep_view fun t u h => ?_
    unfold sameEntry
    rw [hs.locate h, hd.locate h]
  refine hsame.bind fun _ _ same _ _ => ?_
  split
  · exact lockstep_throw _
  dsimp only
  refine (lockstep_ask fun t u h => hs.readBytes h).bind fun t u content h hread => ?_
  rw [run_ask] at hread
  refine (hwrite t u content h hread).tryCatch fun failure => ?_
  split
  · refine lockstep_look (fun t => t.pathExists dest)
      (k := fun there => if there then throw _ else throw _)
      (fun t u h => hd.pathExists h) fun t u _ => ?_
    split
    · exact lockstep_throw _
    · exact lockstep_throw _
  · exact lockstep_throw _

/-- A file is copied in step, if its bytes are, into its destination or in place of it. -/
theorem copyFile_inStep (hd : SeenAlike R dest)
    (hinto : ∀ t u, R t u → t.namesDirectory dest = true →
      Lockstep R (copyBytes source (Path.join dest (Path.baseName source))))
    (hbeside : Lockstep R (copyBytes source dest)) : Lockstep R (copyFile source dest) := by
  unfold copyFile
  refine lockstep_look (fun t => t.namesDirectory dest)
    (k := fun into => if into then copyBytes source (Path.join dest (Path.baseName source))
      else copyBytes source dest)
    (fun t u h => hd.namesDirectory h) fun t u h => ?_
  split
  · rename_i hdirectory
    exact hinto t u h hdirectory
  · exact hbeside

/-- One entry of a directory is copied in step. -/
theorem copyEntry_inStep {copyDirectory : Text → Text → Edit Unit}
    (hs : SeenAlike R (Path.join source name))
    (hdirectory : Lockstep R (copyDirectory (Path.join source name) (Path.join dest name)))
    (hfile : Lockstep R (copyFile (Path.join source name) (Path.join dest name))) :
    Lockstep R (copyEntry copyDirectory source dest name) := by
  unfold copyEntry
  refine Lockstep.tryCatch ?_ fun failure => ?_
  · refine lockstep_look (fun t => t.namesDirectory (Path.join source name))
      (k := fun directory => do
        if directory then copyDirectory (Path.join source name) (Path.join dest name)
        else copyFile (Path.join source name) (Path.join dest name)
        pure [])
      (fun t u h => hs.namesDirectory h) fun t u _ => ?_
    split
    · exact hdirectory.bind fun _ _ _ _ _ => lockstep_pure _
    · exact hfile.bind fun _ _ _ _ _ => lockstep_pure _
  · split
    · exact lockstep_pure _
    · split
      · exact lockstep_pure _
      · exact lockstep_throw _

/-- The start of the copy of a directory: its names are listed and the destination is made. -/
theorem opening_inStep {k : NameSet → Edit Unit} (hs : SeenAlike R source)
    (hopened : ∀ t u l, R t u → t.openDirectory source = .ok l →
      t.namesAt l = u.namesAt l ∧ Lockstep R (makeDirectories false dest) ∧ Lockstep R (k (t.namesAt l))) :
    Lockstep R (do
      let l ← ask (·.openDirectory source)
      let t ← get
      makeDirectories false dest
      k (t.namesAt l)) := by
  intro t u h
  rw [runOn_bind, runOn_bind, run_ask, run_ask, ← hs.openDirectory h]
  cases hopen : t.openDirectory source with
  | error failure => exact ⟨rfl, h⟩
  | ok l =>
    obtain ⟨hnames, hmade, hk⟩ := hopened t u l h hopen
    dsimp only
    rw [runOn_bind, runOn_bind, runOn_get, runOn_get]
    dsimp only
    rw [← hnames]
    exact (hmade.bind fun _ _ _ _ _ => hk) t u h

/-- **A directory is copied in step**, if its destination is made and its entries are copied in step. -/
theorem copyDirectoryTo_inStep (depth : Nat) (hs : SeenAlike R source) (hd : SeenAlike R dest)
    (hopened : ∀ t u l, R t u → t.openDirectory source = .ok l →
      t.namesAt l = u.namesAt l ∧ Lockstep R (makeDirectories false dest) ∧
        ∀ below, depth = below + 1 → ∀ n ∈ (t.namesAt l).toList,
          Lockstep R (copyEntry (copyDirectoryTo below) source dest n)) :
    Lockstep R (copyDirectoryTo depth source dest) := by
  cases depth with
  | zero =>
    have hopening := opening_inStep (k := fun _ => throw (.system .nameTooLong source none)) hs
      fun t u l h hopen =>
        ⟨(hopened t u l h hopen).1, (hopened t u l h hopen).2.1, lockstep_throw _⟩
    unfold copyDirectoryTo
    exact hopening
  | succ below =>
    have hopening := opening_inStep
      (k := fun names => do
        let faults ← names.toList.mapM (copyEntry (copyDirectoryTo below) source dest)
        let t ← get
        if faults.flatten ++ absence source dest t ≠ [] then
          throw (.copy (faults.flatten ++ absence source dest t))) hs fun t u l h hopen => by
      obtain ⟨hnames, hmade, hentries⟩ := hopened t u l h hopen
      refine ⟨hnames, hmade, (Lockstep.mapM (hentries below rfl)).bind fun _ _ faults _ _ => ?_⟩
      -- whether the destination is missing is the same in both trees
      refine lockstep_look (fun t => absence source dest t)
        (k := fun more => if faults.flatten ++ more ≠ [] then throw (.copy (faults.flatten ++ more))
          else pure ()) (fun t u h => ?_) fun t u _ => ?_
      · unfold absence
        rw [hd.locate h]
      · split
        · exact lockstep_throw _
        · exact lockstep_pure _
    unfold copyDirectoryTo
    exact hopening

/-- A file or a directory is copied in step, once the directories above are there. -/
theorem copyOver_inStep (hs : SeenAlike R source)
    (hdirectory : Lockstep R (copyDirectoryTo pathBytesLimit source dest))
    (hfile : Lockstep R (copyFile source dest)) : Lockstep R (copyOver source dest) := by
  unfold copyOver
  refine lockstep_look (fun t => t.namesDirectory source)
    (k := fun directory => if directory then copyDirectoryTo FileTree.pathBytesLimit source dest
      else copyFile source dest)
    (fun t u h => hs.namesDirectory h) fun t u _ => ?_
  split
  · exact hdirectory
  · exact hfile

end Parts

end Edit

end ModuleBuild
