/-
  ModuleBuild.Proofs.FileTree.WholeCopy
  ─────────────────────────────────────
  **COPIES THAT LEAVE NOTHING OUT.**

  A copy goes on after an entry that it cannot copy, and tells all that is
  wrong in the end.  So a copy that succeeds has copied every entry, and what
  lies at the destination is what lies at the source.  In a tree without links
  it succeeds if the system takes the path of everything that is read and of
  everything that is made.

  Main results:
    * `copyFile_whole` — what copying a file comes to;
    * `copyDirectoryTo_whole` — what copying a directory comes to, level by level;
    * `copyOver_whole` — what copying either to a vacant place comes to.
-/
import ModuleBuild.Proofs.FileTree.Delivering
import ModuleBuild.Proofs.FileTree.Ended
import ModuleBuild.Proofs.FileTree.KeptEdits
import ModuleBuild.Proofs.FileTree.Mirroring

namespace ModuleBuild

open FileTree

/-! ## §1. Faults of copies. -/

namespace FileTree

variable {t : FileTree} {aim : Aim} {p : Text} {faults : List CopyFault}

theorem checkPath_ne_copy : checkPath p ≠ .error (.copy faults) := by
  unfold checkPath
  split
  · simp
  · split <;> simp

theorem locate_ne_copy : t.locate aim p ≠ .error (.copy faults) := by
  intro h
  unfold locate at h
  cases hcheck : checkPath p with
  | error failure =>
    rw [hcheck] at h
    cases h
    exact checkPath_ne_copy hcheck
  | ok u =>
    rw [hcheck] at h
    simp only [bind, Except.bind] at h
    split at h
    · cases h
    · cases h

theorem readBytes_ne_copy : t.readBytes p ≠ .error (.copy faults) := by
  intro h
  unfold readBytes at h
  split at h
  · rename_i hlocate
    cases h
    exact locate_ne_copy hlocate
  · cases h
  · split at h
    · cases h
    · cases h

theorem openDirectory_ne_copy : t.openDirectory p ≠ .error (.copy faults) := by
  intro h
  unfold openDirectory at h
  split at h
  · rename_i hlocate
    cases h
    exact locate_ne_copy hlocate
  · cases h
  · split at h
    · cases h
    · cases h

theorem writeBytes_ne_copy {content : Bytes} : t.writeBytes p content ≠ .error (.copy faults) := by
  intro h
  unfold writeBytes fileAt at h
  cases hlocate : t.locate .file p with
  | error failure =>
    rw [hlocate] at h
    cases h
    exact locate_ne_copy hlocate
  | ok place =>
    rw [hlocate] at h
    cases place with
    | vacant parent name => cases h
    | occupied l =>
      dsimp only at h
      split at h
      · cases h
      · cases h

theorem makeDirectory_ne_copy : t.makeDirectory p ≠ .error (.copy faults) := by
  intro h
  unfold makeDirectory onPath at h
  cases hcheck : checkPath p with
  | error failure =>
    rw [hcheck] at h
    cases h
    exact checkPath_ne_copy hcheck
  | ok u =>
    rw [hcheck] at h
    simp only [bind, Except.bind] at h
    split at h
    · cases h
    · cases h

end FileTree

namespace Edit

variable {α β : Type} {failure : Failure} {source dest : Text}

/-- An edit that never fails with a failure. -/
def Avoids (failure : Failure) (e : Edit α) : Prop := ∀ t, (e.runOn t).1 ≠ .error failure

theorem avoids_pure (a : α) : Avoids failure (pure a : Edit α) := fun _ => nofun

theorem avoids_get : Avoids failure (get : Edit FileTree) := fun _ => nofun

theorem avoids_throw {other : Failure} (h : other ≠ failure) : Avoids failure (throw other : Edit α) :=
  fun _ he => h (Except.error.inj he)

theorem avoids_ask {f : FileTree → Except Failure α} (h : ∀ t, f t ≠ .error failure) :
    Avoids failure (ask f) := by
  intro t
  rw [run_ask]
  exact h t

theorem avoids_change {f : FileTree → Except Failure FileTree} (h : ∀ t, f t ≠ .error failure) :
    Avoids failure (change f) := by
  intro t
  rw [run_change]
  have hf := h t
  split
  · nofun
  · rename_i hresult
    rw [hresult] at hf
    exact fun he => hf (congrArg _ (Except.error.inj he))

theorem Avoids.bind {e : Edit α} {f : α → Edit β} (he : Avoids failure e)
    (hf : ∀ a, Avoids failure (f a)) : Avoids failure (e >>= f) := by
  intro t
  have hfirst := he t
  rw [runOn_bind]
  rcases hrun : e.runOn t with ⟨other | a, t'⟩
  · rw [hrun] at hfirst
    exact fun h => hfirst (congrArg _ (Except.error.inj h))
  · exact hf a t'

theorem Avoids.tryCatch {e : Edit α} {handler : Failure → Edit α} (he : Avoids failure e)
    (hhandler : ∀ other, other ≠ failure → Avoids failure (handler other)) :
    Avoids failure (tryCatch e handler) := by
  intro t
  have hfirst := he t
  rw [runOn_tryCatch]
  rcases hrun : e.runOn t with ⟨other | a, t'⟩
  · rw [hrun] at hfirst
    exact hhandler other (fun h => hfirst (congrArg _ h)) t'
  · nofun

theorem Avoids.mapM {step : α → Edit β} (hstep : ∀ a, Avoids failure (step a)) :
    ∀ items : List α, Avoids failure (items.mapM step)
  | [] => avoids_pure _
  | item :: items => by
    rw [List.mapM_cons]
    exact (hstep item).bind fun _ => (Avoids.mapM hstep items).bind fun _ => avoids_pure _

/-! Copies fail with the faults of their entries only if there are any. -/

theorem copyBytes_avoids (source dest : Text) (faults : List CopyFault) :
    Avoids (.copy faults) (copyBytes source dest) := by
  unfold copyBytes
  refine (avoids_ask fun _ => checkPath_ne_copy).bind fun _ => ?_
  refine (avoids_ask fun _ => checkPath_ne_copy).bind fun _ => ?_
  refine Avoids.bind (fun _ => nofun) fun same => ?_
  split
  · exact avoids_throw nofun
  · refine (avoids_ask fun _ => readBytes_ne_copy).bind fun content => ?_
    refine (avoids_change fun _ => writeBytes_ne_copy).tryCatch fun other hother => ?_
    split
    · refine avoids_get.bind fun t => ?_
      split
      · exact avoids_throw nofun
      · exact avoids_throw nofun
    · exact avoids_throw hother

theorem copyFile_avoids (source dest : Text) (faults : List CopyFault) :
    Avoids (.copy faults) (copyFile source dest) := by
  unfold copyFile
  refine avoids_get.bind fun t => ?_
  split
  · exact copyBytes_avoids _ _ _
  · exact copyBytes_avoids _ _ _

theorem makeDirectories_avoids (existOk : Bool) (faults : List CopyFault) (p : Text) :
    Avoids (.copy faults) (makeDirectories existOk p) := by
  induction hlength : p.length using Nat.strongRecOn generalizing p with | ind length ih => ?_
  rw [makeDirectories]
  refine avoids_get.bind fun t => ?_
  have hlast : Avoids (.copy faults) (makeLast existOk p) := by
    refine (avoids_change fun _ => makeDirectory_ne_copy).tryCatch fun other hother => ?_
    refine avoids_get.bind fun t => ?_
    split
    · exact avoids_throw hother
    · exact avoids_pure _
  split
  · rename_i habove
    have hrec := ih _ (hlength ▸ length_splitLast_lt habove.1) (splitLast p).1 rfl
    refine Avoids.bind (hrec.tryCatch fun other hother => ?_) fun _ => ?_
    · split
      · exact avoids_pure _
      · exact avoids_throw hother
    · split
      · exact avoids_pure _
      · exact hlast
  · exact hlast

theorem copyEntry_avoids {copyDirectory : Text → Text → Edit Unit}
    (h : ∀ source dest, Avoids (.copy []) (copyDirectory source dest)) (source dest name : Text) :
    Avoids (.copy []) (copyEntry copyDirectory source dest name) := by
  unfold copyEntry
  refine Avoids.tryCatch ?_ fun other hother => ?_
  · refine avoids_get.bind fun t => ?_
    split
    · exact (h _ _).bind fun _ => avoids_pure _
    · exact (copyFile_avoids _ _ _).bind fun _ => avoids_pure _
  · split
    · exact avoids_pure _
    · split
      · exact avoids_pure _
      · exact avoids_throw hother

theorem copyDirectoryTo_avoids (depth : Nat) :
    ∀ source dest : Text, Avoids (.copy []) (copyDirectoryTo depth source dest) := by
  induction depth with
  | zero =>
    intro source dest
    unfold copyDirectoryTo
    refine (avoids_ask fun _ => openDirectory_ne_copy).bind fun l => avoids_get.bind fun t => ?_
    exact (makeDirectories_avoids _ _ _).bind fun _ => avoids_throw (by simp)
  | succ below ih =>
    intro source dest
    unfold copyDirectoryTo
    refine (avoids_ask fun _ => openDirectory_ne_copy).bind fun l => avoids_get.bind fun t => ?_
    refine (makeDirectories_avoids _ _ _).bind fun _ => ?_
    refine (Avoids.mapM (copyEntry_avoids ih source dest) _).bind fun faults => ?_
    refine avoids_get.bind fun u => ?_
    dsimp only
    split
    · rename_i hne
      exact avoids_throw fun h => hne (Failure.copy.inj h)
    · exact avoids_pure _

end Edit

/-! ## §2. Where something can be copied. -/

namespace FileTree

open ModuleBuild.Path (Ended)

variable {t t' : FileTree} {source dest n : Text}

/-- What lies below a place does not lie below another that is apart from it. -/
theorem not_prefix_of_apart {S D q : Location} (h : ¬ D <+: S ∧ ¬ S <+: D) : ¬ D <+: S ++ q := by
  intro hpre
  rcases List.prefix_or_prefix_of_prefix hpre (List.prefix_append S q) with hd | hs
  · exact h.1 hd
  · exact h.2 hs

/-- A change within a place where no link is leaves a tree without links one. -/
theorem Within.linkFree {D : Location} (h : Within D t t') (hfree : LinkFree t) : LinkFree t' := by
  intro k path
  by_cases hk : D <+: k
  · exact h.linkFreeAt (hfree.at D) k path hk
  · show t'.entryAt? k ≠ _
    rw [h.outside k hk]
    exact hfree.ne_link k path

/-- A path that ends in a name is one at which something can be put, if it ends in a directory. -/
theorem exists_landing (hproper : Proper t) (hdest : Ended dest)
    (hstart : t.entryAt? (t.startOf dest) = some .directory)
    (hparent : t.entryAt? (t.endOf dest).dropLast = some .directory) :
    ∃ root init n d, dest = Path.written root (init ++ [n]) ∧ t.endOf dest = d ++ [Utf8.nameForm n] ∧
      Edit.Landing t root init n d := by
  obtain ⟨root, init, n, rfl, hroot, htidy, hn⟩ := hdest
  obtain ⟨ups, ms, hinit, hms, -⟩ := htidy.concat hn
  have hend : t.endOf (Path.written root (init ++ [n]))
      = init.foldl stepFrom (t.startOf (Path.written root (init ++ [n]))) ++ [Utf8.nameForm n] := by
    unfold endOf
    rw [Path.names_written hroot htidy.isPart, List.foldl_append]
    exact stepFrom_named hn.2.1 hn.2.2
  rw [hend, List.dropLast_concat] at hparent
  refine ⟨root, init, n, _, rfl, hend, hproper, hroot, htidy, hn, hstart, ?_⟩
  rw [hinit] at hparent ⊢
  rw [foldl_stepFrom_tidy hms] at hparent ⊢
  exact leads_ups.2 (leads_map hms hparent)

/-- A source and a destination in a tree without links: something is at the source, and neither lies
in the other. -/
structure Supplied (source dest : Text) (t : FileTree) : Prop where
  proper : Proper t
  free : LinkFree t
  sourceEnded : Ended source
  destEnded : Ended dest
  apart : ¬ t.endOf dest <+: t.endOf source ∧ ¬ t.endOf source <+: t.endOf dest
  present : t.entryAt? (t.endOf source) ≠ none
  /-- Names are listed as the system writes them. -/
  forms : ∀ q, t.entryAt? (t.endOf source ++ q) ≠ none → ∀ m ∈ q, Utf8.nameForm m = m

/-- A destination that is a vacant name of a directory. -/
structure Awaiting (source dest : Text) (t : FileTree) : Prop extends Supplied source dest t where
  start : t.entryAt? (t.startOf dest) = some .directory
  parent : t.entryAt? (t.endOf dest).dropLast = some .directory
  vacant : t.entryAt? (t.endOf dest) = none

namespace Awaiting

/-- The destination, name by name. -/
theorem landing (h : Awaiting source dest t) :
    ∃ root init n d, dest = Path.written root (init ++ [n]) ∧ t.endOf dest = d ++ [Utf8.nameForm n] ∧
      Edit.Landing t root init n d :=
  exists_landing h.proper h.destEnded h.start h.parent

/-- Nothing at the destination is a link, as nothing is there. -/
theorem linkFreeAt (h : Awaiting source dest t) : t.LinkFreeAt (t.endOf dest) := h.free.at _

theorem none_below (h : Awaiting source dest t) (q : Location) :
    t.entryAt? (t.endOf dest ++ q) = none :=
  entryAt?_eq_none_of_below h.vacant (List.prefix_append ..)

/-- A change within the destination leaves what lies at the source. -/
theorem same_source (h : Awaiting source dest t) (hw : Within (t.endOf dest) t t') (q : Location) :
    t'.entryAt? (t.endOf source ++ q) = t.entryAt? (t.endOf source ++ q) :=
  hw.outside _ (not_prefix_of_apart h.apart)

/-- One level down, once the directory of the destination is there. -/
theorem child (h : Awaiting source dest t) (hw : Within (t.endOf dest) t t')
    (hdir : t'.entryAt? (t.endOf dest) = some .directory)
    (hsome : t.entryAt? (t.endOf source ++ [n]) ≠ none)
    (hnone : t'.entryAt? (t.endOf dest ++ [n]) = none) :
    Awaiting (Path.join source n) (Path.join dest n) t' ∧
      t'.endOf (Path.join source n) = t.endOf source ++ [n] ∧
      t'.endOf (Path.join dest n) = t.endOf dest ++ [n] := by
  have hn : Path.IsName n := h.proper.names _ hsome n (by simp)
  have hform : Utf8.nameForm n = n := h.forms [n] hsome n (by simp)
  have hends : ∀ p, t'.endOf (Path.join p n) = t.endOf p ++ [n] := by
    intro p
    rw [endOf_join_name hn, endOf_eq hw.workingDir, hform]
  refine ⟨⟨⟨hw.proper h.proper, hw.linkFree h.free, h.sourceEnded.join hn, h.destEnded.join hn, ?_, ?_, ?_⟩,
    ?_, ?_, ?_⟩, hends source, hends dest⟩
  · rw [hends, hends]
    exact ⟨fun hpre => not_prefix_of_apart h.apart ((List.prefix_append _ _).trans hpre),
      fun hpre => not_prefix_of_apart h.apart.symm ((List.prefix_append _ _).trans hpre)⟩
  · rw [hends, h.same_source hw]
    exact hsome
  · intro q hq m hm
    rw [hends, List.append_assoc, h.same_source hw] at hq
    exact h.forms _ hq m (List.mem_append_right _ hm)
  · rw [startOf, isAbsolute_join_name hn.1, ← startOf, startOf_eq hw.workingDir]
    exact hw.grows.directory h.start
  · rw [hends, List.dropLast_concat]
    exact hdir
  · rw [hends]
    exact hnone

end Awaiting

/-- The system takes the path of everything at a source, and of what is made for it. -/
def TakesBelow (source dest : Text) (t : FileTree) : Prop :=
  ∀ q, t.entryAt? (t.endOf source ++ q) ≠ none →
    Fits (Path.below source q) ∧ Fits (Path.below dest q)

theorem TakesBelow.fits (h : TakesBelow source dest t) (hpresent : t.entryAt? (t.endOf source) ≠ none) :
    Fits source ∧ Fits dest :=
  h [] (by rwa [List.append_nil])

/-- What a copy comes to that leaves nothing out: it keeps to its destination, where all is as at the
source if it succeeds, as it does if there is room. -/
structure CopiedWhole (source dest : Text) (t : FileTree) (room : Prop) (r : Except Failure Unit)
    (t' : FileTree) : Prop where
  within : Within (t.endOf dest) t t'
  same : r = .ok () → ∀ q, t'.entryAt? (t.endOf dest ++ q) = t.entryAt? (t.endOf source ++ q)
  done : room → r = .ok ()

/-- Below a file is nothing. -/
theorem none_below_file {l q : Location} {content : Bytes} (h : t.entryAt? l = some (.file content))
    (hq : q ≠ []) : t.entryAt? (l ++ q) = none := by
  by_contra hsome
  have hdir := isDirectory_of_below hsome (List.prefix_append l q) (by simpa using hq)
  rw [h] at hdir
  cases hdir

end FileTree

namespace Edit

open FileTree

variable {t : FileTree} {source dest : Text}

/-! ## §3. Files. -/

/-- A file at a path that the system takes can be copied to a vacant one. -/
theorem copyBytes_done (h : Awaiting source dest t) {content : Bytes} (hsource : Fits source)
    (hdest : Fits dest) (hfile : t.entryAt? (t.endOf source) = some (.file content)) :
    ((copyBytes source dest).runOn t).1 = .ok () := by
  obtain ⟨n, -, hvacant⟩ := h.destEnded.locate_of_vacant hdest h.parent h.vacant
  have hsame : sameEntry t source dest = false := by
    unfold sameEntry
    rw [hvacant]
    split
    · rename_i hplace
      cases hplace
    · rfl
  have hread : t.readBytes source = .ok content := (h.sourceEnded.readBytes_iff h.free).2 ⟨hsource, hfile⟩
  have hwrite : t.writeBytes dest content
      = .ok (t.put ((t.endOf dest).dropLast ++ [n]) (.file content)) := by
    unfold writeBytes fileAt
    rw [hvacant]
    rfl
  unfold copyBytes
  rw [runOn_bind, run_ask, hsource.check]
  dsimp only
  rw [runOn_bind, run_ask, hdest.check]
  dsimp only
  rw [runOn_bind, runOn_view, hsame]
  dsimp only
  rw [if_neg Bool.false_ne_true, runOn_bind, run_ask, hread]
  dsimp only
  rw [runOn_tryCatch, run_change, hwrite]

/-- **What copying a file comes to.** -/
theorem copyFile_whole (h : Awaiting source dest t) :
    CopiedWhole source dest t
      (Fits source ∧ Fits dest ∧ ∃ content, t.entryAt? (t.endOf source) = some (.file content))
      ((copyFile source dest).runOn t).1 ((copyFile source dest).runOn t).2 := by
  obtain ⟨root, init, n, d, hdest, hend, hland⟩ := h.landing
  -- nothing is at the destination, so it is no directory to copy into
  have hno : t.namesDirectory dest = false := by
    rw [Bool.eq_false_iff]
    intro hdir
    have hsome := ((h.destEnded.namesDirectory_iff h.free).1 hdir).2
    rw [h.vacant] at hsome
    cases hsome
  have hrun : (copyFile source dest).runOn t = (copyBytes source dest).runOn t := by
    unfold copyFile
    rw [runOn_bind, runOn_get]
    dsimp only
    rw [hno, if_neg Bool.false_ne_true]
  have hwithin : Within (t.endOf dest) t ((copyFile source dest).runOn t).2 := by
    have hvacant := h.vacant
    have hfree := h.linkFreeAt
    rw [hend] at hvacant hfree ⊢
    rw [hdest]
    exact copyFile_within source hland hfree (.inl hvacant)
  refine ⟨hwithin, ?_, fun ⟨hs, hd, content, hfile⟩ => ?_⟩
  · rw [hrun]
    rcases copyBytes_cases source dest t with
      ⟨failure, hfail⟩ | ⟨l, old, content, hread, hfile, hput⟩
    · rw [hfail]
      nofun
    · rw [hput]
      intro _ q
      have hsource := ((h.sourceEnded.readBytes_iff h.free).1 hread).2
      obtain ⟨rfl, -⟩ := eq_of_fileAt (hdest ▸ hland.names) hland.isName (hdest ▸ hland.not_slash)
        (hdest ▸ hland.leads) (fun path => h.free.ne_link _ _) hfile
      rw [hend, entryAt?_put_leaf hland.isDirectory rfl]
      by_cases hq : q = []
      · rw [hq, List.append_nil, if_pos rfl, List.append_nil, hsource]
        rfl
      · rw [if_neg (by simpa using hq), if_pos (List.prefix_append ..), none_below_file hsource hq]
  · rw [hrun]
    exact copyBytes_done h hs hd hfile

/-! ## §4. Entries. -/

/-- A copy of a directory with `copyDirectory`, or of a file. -/
def copyThing (copyDirectory : Text → Text → Edit Unit) (source dest : Text) : Edit Unit := do
  if (← get).namesDirectory source then copyDirectory source dest else copyFile source dest

/-- What copying either comes to, if what copying a directory comes to is known. -/
theorem copyThing_whole (copyDirectory : Text → Text → Edit Unit) (room : Prop)
    (h : Awaiting source dest t) (hroom : room → TakesBelow source dest t)
    (hdirectory : t.entryAt? (t.endOf source) = some .directory →
      CopiedWhole source dest t room ((copyDirectory source dest).runOn t).1
        ((copyDirectory source dest).runOn t).2) :
    CopiedWhole source dest t room ((copyThing copyDirectory source dest).runOn t).1
      ((copyThing copyDirectory source dest).runOn t).2 := by
  unfold copyThing
  rw [runOn_bind, runOn_get]
  dsimp only
  split
  · rename_i hdir
    exact hdirectory ((h.sourceEnded.namesDirectory_iff h.free).1 hdir).2
  · rename_i hdir
    obtain ⟨hwithin, hsame, hdone⟩ := copyFile_whole h
    refine ⟨hwithin, hsame, fun hr => hdone ?_⟩
    have hfits := (hroom hr).fits h.present
    refine ⟨hfits.1, hfits.2, ?_⟩
    -- it is there, and no directory
    obtain ⟨e, he⟩ := Option.ne_none_iff_exists'.1 h.present
    cases e with
    | file content => exact ⟨content, he⟩
    | link path => exact absurd he (h.free.ne_link _ _)
    | directory => exact absurd ((h.sourceEnded.namesDirectory_iff h.free).2 ⟨hfits.1, he⟩) hdir

/-- The faults of an entry are told; a failure that is not of the system goes on. -/
def tell (source dest : Text) : Failure → Edit (List CopyFault)
  | .copy faults => pure faults
  | failure =>
    if failure.isSystemFault then pure [⟨source, dest, failure.message⟩] else throw failure

theorem runOn_copyEntry (copyDirectory : Text → Text → Edit Unit) (source dest name : Text)
    (t : FileTree) :
    (copyEntry copyDirectory source dest name).runOn t
      = (tryCatch
          (copyThing copyDirectory (Path.join source name) (Path.join dest name) >>= fun _ => pure [])
          (tell (Path.join source name) (Path.join dest name))).runOn t := by
  unfold copyEntry copyThing
  rw [runOn_tryCatch, runOn_tryCatch, runOn_bind, runOn_bind, runOn_bind, runOn_get]
  dsimp only
  by_cases hdir : t.namesDirectory (Path.join source name) = true
  · rw [if_pos hdir, if_pos hdir, runOn_bind]
    rfl
  · rw [if_neg hdir, if_neg hdir, runOn_bind]
    rfl

/-- **An entry has no faults exactly if it is copied.** -/
theorem copyEntry_done {copyDirectory : Text → Text → Edit Unit}
    (h : ∀ source dest, Avoids (.copy []) (copyDirectory source dest)) (source dest name : Text)
    (t : FileTree) :
    ((copyEntry copyDirectory source dest name).runOn t).2
        = ((copyThing copyDirectory (Path.join source name) (Path.join dest name)).runOn t).2 ∧
      (((copyEntry copyDirectory source dest name).runOn t).1 = .ok []
        ↔ ((copyThing copyDirectory (Path.join source name) (Path.join dest name)).runOn t).1
          = .ok ()) := by
  -- a copy never fails with an empty list of faults, which is what no faults would look like
  have havoids : Avoids (.copy [])
      (copyThing copyDirectory (Path.join source name) (Path.join dest name)) := by
    unfold copyThing
    refine avoids_get.bind fun t => ?_
    split
    · exact h _ _
    · exact copyFile_avoids _ _ _
  have hno := havoids t
  rw [runOn_copyEntry, runOn_tryCatch, runOn_bind]
  rcases hrun : (copyThing copyDirectory (Path.join source name) (Path.join dest name)).runOn t with
    ⟨failure | u, t'⟩
  · rw [hrun] at hno
    dsimp only
    unfold tell
    split
    · rename_i faults
      refine ⟨rfl, ?_, nofun⟩
      intro hnil
      cases hnil
      exact absurd rfl hno
    · split
      · exact ⟨rfl, nofun, nofun⟩
      · exact ⟨rfl, nofun, nofun⟩
  · exact ⟨rfl, fun _ => rfl, fun _ => rfl⟩

/-- Steps that each fill in a name fill in all of them, if none has faults. -/
theorem mapM_fills (I : List Text → FileTree → Prop) (step : Text → Edit (List CopyFault)) (room : Prop)
    (hstep : ∀ n rest t, I (n :: rest) t →
      (((step n).runOn t).1 = .ok [] → I rest ((step n).runOn t).2) ∧
        (room → ((step n).runOn t).1 = .ok [])) :
    ∀ (names : List Text) (t : FileTree), I names t →
      (∀ faults, ((names.mapM step).runOn t).1 = .ok faults → faults.flatten = [] →
        I [] ((names.mapM step).runOn t).2) ∧
      (room → ∃ faults, ((names.mapM step).runOn t).1 = .ok faults ∧ faults.flatten = [])
  | [], t, ht => ⟨fun _ _ _ => ht, fun _ => ⟨[], rfl, rfl⟩⟩
  | n :: names, t, ht => by
    obtain ⟨hdone, hroom⟩ := hstep n names t ht
    rw [List.mapM_cons, runOn_bind]
    rcases hrun : (step n).runOn t with ⟨failure | first, t1⟩
    · rw [hrun] at hroom
      exact ⟨nofun, fun hr => by cases hroom hr⟩
    · rw [hrun] at hdone hroom
      dsimp only
      rw [runOn_bind]
      by_cases hfirst : first = []
      · subst hfirst
        obtain ⟨hall, hallRoom⟩ := mapM_fills I step room hstep names t1 (hdone rfl)
        rcases hrest : (names.mapM step).runOn t1 with ⟨failure | others, t2⟩
        · rw [hrest] at hallRoom
          exact ⟨nofun, fun hr => by obtain ⟨faults, hfaults, -⟩ := hallRoom hr; cases hfaults⟩
        · rw [hrest] at hall hallRoom
          refine ⟨fun faults hfaults hflat => ?_, fun hr => ?_⟩
          · cases hfaults
            exact hall others rfl (by simpa using hflat)
          · obtain ⟨faults, hfaults, hflat⟩ := hallRoom hr
            cases hfaults
            exact ⟨[] :: others, rfl, by simpa using hflat⟩
      · -- an entry that has faults is enough
        refine ⟨fun faults hfaults hflat => ?_, fun hr => absurd (Except.ok.inj (hroom hr)) hfirst⟩
        rcases hrest : (names.mapM step).runOn t1 with ⟨failure | others, t2⟩
        · rw [hrest] at hfaults
          cases hfaults
        · rw [hrest] at hfaults
          cases hfaults
          exact absurd hflat (by simp [hfirst])

/-! ## §5. Directories. -/

/-- The directory above a destination is found, unless its path is empty. -/
theorem pathExists_above {root : Text} {init : List Text} {n : Text} (hroot : Path.IsRoot root)
    (htidy : Path.Tidy (root ≠ []) (init ++ [n])) (hn : Path.IsName n)
    (hfits : Fits (Path.written root (init ++ [n])))
    (hparent : t.entryAt? (t.endOf (Path.written root (init ++ [n]))).dropLast = some .directory) :
    Path.written root init = [] ∨ t.pathExists (Path.written root init) = true := by
  refine or_iff_not_imp_left.2 fun hne => ?_
  obtain ⟨init', n', links', hnames, -, -, hfollow, -⟩ :=
    (Path.ended_written hroot htidy hn).follow_last hfits hparent
  have hinit : ∀ m ∈ init, Path.IsPart m := fun m hm => htidy.isPart m (List.mem_append_left _ hm)
  rw [Path.names_written hroot htidy.isPart] at hnames
  obtain ⟨rfl, -⟩ := List.append_inj' hnames rfl
  have habove : Fits (Path.written root init) := fits_written_of_append hroot htidy.isPart hfits
  have hstart : t.startOf (Path.written root init) = t.startOf (Path.written root (init ++ [n])) := by
    rw [startOf_written hroot hinit, startOf_written hroot htidy.isPart]
  have hlocate : t.locate .target (Path.written root init)
      = .ok (.occupied (t.endOf (Path.written root (init ++ [n]))).dropLast) := by
    refine locate_eq_ok_iff.2 ⟨habove.check, hne, Nat.not_le.2 habove.short, ?_⟩
    show follow t .target _ maxLinks (t.startOf (Path.written root init)) _ = _
    rw [Path.names_written hroot hinit, hstart]
    exact hfollow _
  unfold pathExists find?
  rw [hlocate]
  dsimp only
  rw [hparent]
  rfl

/-- A directory is made at a vacant path that the system takes. -/
theorem makeDirectories_done (h : Awaiting source dest t) (hfits : Fits dest) :
    ((makeDirectories false dest).runOn t).1 = .ok () := by
  have hmake : t.makeDirectory dest = .ok (t.put (t.endOf dest) .emptyDirectory) := by
    unfold makeDirectory onPath
    rw [hfits.check, h.destEnded.lastLocation_of_fits _ hfits h.parent]
    simp only [bind, Except.bind, h.vacant]
  have hlast : (makeLast false dest).runOn t = (.ok (), t.put (t.endOf dest) .emptyDirectory) := by
    unfold makeLast
    rw [runOn_tryCatch, run_change, hmake]
  have hparent := h.parent
  obtain ⟨root, init, n, rfl, hroot, htidy, hn⟩ := h.destEnded
  have hsplit : splitLast (Path.written root (init ++ [n])) = (Path.written root init, n) :=
    splitLast_written hroot (fun m hm => htidy.isPart m (List.mem_append_left _ hm)) hn.1
  rw [runOn_makeDirectories_step false _ t (by rw [hsplit]; exact hn.2.1), if_neg, hlast]
  rw [hsplit]
  rintro ⟨-, hne, habove⟩
  rcases pathExists_above hroot htidy hn hfits hparent with hnil | hthere
  · exact hne hnil
  · rw [hthere] at habove
    cases habove

/-- A directory that is being filled from another: some names are still to do, and are vacant; under
the others all is as in the source. -/
structure Filling (S D : Location) (b : FileTree) (rest : List Text) (t : FileTree) : Prop where
  within : Within D b t
  todo : ∀ n ∈ rest, t.entryAt? (D ++ [n]) = none
  done : ∀ n, n ∉ rest → ∀ q, t.entryAt? (D ++ n :: q) = b.entryAt? (S ++ n :: q)

/-- One name is filled in. -/
theorem Filling.step {S D : Location} {b t' : FileTree} {n : Text} {rest : List Text}
    (h : Filling S D b (n :: rest) t) (hapart : ¬ D <+: S ∧ ¬ S <+: D) (hn : n ∉ rest)
    (hw : Within (D ++ [n]) t t')
    (hsame : ∀ q, t'.entryAt? (D ++ [n] ++ q) = t.entryAt? (S ++ [n] ++ q)) : Filling S D b rest t' where
  within := h.within.trans (hw.above (List.prefix_append ..))
  todo m hm := by
    rw [hw.outside, h.todo m (List.mem_cons_of_mem _ hm)]
    intro hpre
    have hm' : n = m := by simpa using hpre
    exact hn (hm' ▸ hm)
  done m hm q := by
    by_cases hmn : m = n
    · have hsource := h.within.outside (S ++ n :: q) (not_prefix_of_apart hapart)
      rw [hmn, List.append_cons, hsame, ← List.append_cons, hsource]
    · rw [hw.outside]
      · exact h.done m (by simp [hmn, hm]) q
      · intro hpre
        have hnm : n = m := by simpa using hpre
        exact hmn hnm.symm

/-- All names are filled in: the directory is as the source. -/
theorem Filling.whole {S D : Location} {b : FileTree} (h : Filling S D b [] t)
    (hS : b.entryAt? S = some .directory) (hD : b.entryAt? D = some .directory) (q : Location) :
    t.entryAt? (D ++ q) = b.entryAt? (S ++ q) := by
  cases q with
  | nil => rw [List.append_nil, List.append_nil, h.within.grows.directory hD, hS]
  | cons n q => exact h.done n List.not_mem_nil q

/-- A directory that is just made is to be filled with all names of the source. -/
theorem filling_start {S D : Location} {b : FileTree} {names : List Text}
    (hnames : ∀ n, n ∈ names ↔ b.entryAt? (S ++ [n]) ≠ none)
    (hempty : ∀ n q, b.entryAt? (D ++ n :: q) = none) : Filling S D b names b where
  within := .refl D b
  todo n _ := hempty n []
  done n hn q := by
    have hnone : b.entryAt? (S ++ [n]) = none := by
      by_contra hsome
      exact hn ((hnames n).2 hsome)
    rw [hempty, List.append_cons, entryAt?_eq_none_of_below hnone (List.prefix_append ..)]

/-- The directory of a destination, once it is made. -/
theorem makeDirectories_opens {t' : FileTree} (h : Awaiting source dest t)
    (hrun : (makeDirectories false dest).runOn t = (.ok (), t')) :
    Within (t.endOf dest) t t' ∧ t'.entryAt? (t.endOf dest) = some .directory ∧
      ∀ n q, t'.entryAt? (t.endOf dest ++ n :: q) = none := by
  obtain ⟨root, init, n, d, hdest, hend, hland⟩ := h.landing
  have hbelow := h.none_below
  rw [hdest] at hrun
  rw [hend] at hbelow ⊢
  obtain ⟨hwithin, hok⟩ := makeDirectories_within hland hrun
  obtain ⟨-, hnew, -⟩ := makeDirectories_last hland.isRoot hland.tidy hland.start hland.leads hrun
  refine ⟨hwithin, (hok rfl).2.1, fun m q => ?_⟩
  rcases hnew (d ++ [Utf8.nameForm n] ++ m :: q) with heq | ⟨heq, -⟩
  · rw [heq, hbelow]
  · exact absurd heq (by simp)

theorem byteCount_lt_join {p n : Text} (hp : Path.Ended p) (hn : Path.IsName n) :
    Utf8.byteCount p < Utf8.byteCount (Path.join p n) := by
  obtain ⟨-, -, -, -, -, hslash⟩ := hp.exists_names
  have hjoin : Path.join p n = p ++ (([CodePoint.slash] : Text) ++ n) := by
    unfold Path.join
    rw [if_neg (by rw [Path.isAbsolute_of_isPart hn.1]; simp), if_neg]
    · rfl
    · rw [Bool.or_eq_true, not_or]
      refine ⟨by simpa using hp.ne_nil, fun hlast => ?_⟩
      rw [Path.slash_text, Bool.eq_false_iff, ne_eq, Path.endsWith_slash_iff] at hslash
      exact hslash (by simpa using hlast)
  rw [hjoin, byteCount_append, byteCount_append]
  have hone : Utf8.byteCount ([CodePoint.slash] : Text) = 1 := by decide
  omega

theorem nodup_toList (s : NameSet) : s.toList.Nodup :=
  s.ascending.imp fun {a b} (hlt : a < b) (heq : a = b) => List.lt_irrefl b (heq ▸ hlt)

/-- The entries of a directory are copied within its destination. -/
theorem mapM_copyEntry_within {t1 : FileTree} (below : Nat) (h : Awaiting source dest t)
    (hdir : t.entryAt? (t.endOf source) = some .directory)
    (hmake : (makeDirectories false dest).runOn t = (.ok (), t1)) :
    Within (t.endOf dest) t1 (((t.namesAt (t.endOf source)).toList.mapM
      (copyEntry (copyDirectoryTo below) source dest)).runOn t1).2 := by
  obtain ⟨hmade, hopened, -⟩ := makeDirectories_opens h hmake
  obtain ⟨root, init, n, d, hdest, hend, hland⟩ := h.landing
  have hfree := (hmade.linkFree h.free).at (t.endOf dest)
  rw [hend] at hmade hopened hfree ⊢
  rw [hdest]
  exact copyEntries_within (fun source _ _ _ hland => (copyDirectoryTo_within below source hland).1)
    source (fun name hname => isName_of_mem_namesAt h.proper hdir hname) (hland.within hmade) hopened hfree

/-- What copying a directory of some levels comes to. -/
abbrev DirectoryWhole (depth : Nat) (source dest : Text) (t : FileTree) : Prop :=
  CopiedWhole source dest t
    (t.entryAt? (t.endOf source) = some .directory ∧ TakesBelow source dest t
      ∧ pathBytesLimit ≤ depth + Utf8.byteCount source)
    ((copyDirectoryTo depth source dest).runOn t).1 ((copyDirectoryTo depth source dest).runOn t).2

/-- What holds while the entries of a directory are copied: some names are still to do, each of which is
in the source, and the others are done. -/
structure Underway (source dest : Text) (t t1 : FileTree) (rest : List Text) (u : FileTree) : Prop where
  filling : Filling (t.endOf source) (t.endOf dest) t1 rest u
  nodup : rest.Nodup
  present : ∀ n ∈ rest, t.entryAt? (t.endOf source ++ [n]) ≠ none

/-- Room for the entries of a directory: the system takes all their paths, and there are levels enough. -/
def RoomBelow (below : Nat) (source dest : Text) (t : FileTree) : Prop :=
  TakesBelow source dest t ∧ pathBytesLimit ≤ below + 1 + Utf8.byteCount source

/-- **One entry is copied**, if what copying directories of fewer levels comes to is known. -/
theorem copyEntry_underway {below : Nat} {t1 u : FileTree} {n : Text} {rest : List Text}
    (hbelow : ∀ {source dest : Text} {t : FileTree}, Awaiting source dest t →
      DirectoryWhole below source dest t)
    (h : Awaiting source dest t) (hmade : Within (t.endOf dest) t t1)
    (hopened : t1.entryAt? (t.endOf dest) = some .directory) (hu : Underway source dest t t1 (n :: rest) u) :
    (((copyEntry (copyDirectoryTo below) source dest n).runOn u).1 = .ok [] →
        Underway source dest t t1 rest ((copyEntry (copyDirectoryTo below) source dest n).runOn u).2) ∧
      (RoomBelow below source dest t →
        ((copyEntry (copyDirectoryTo below) source dest n).runOn u).1 = .ok []) := by
  have hw : Within (t.endOf dest) t u := hmade.trans hu.filling.within
  have hsome := hu.present n (List.mem_cons_self ..)
  obtain ⟨hchild, hends, hendd⟩ := h.child hw (hu.filling.within.grows.directory hopened) hsome
    (hu.filling.todo n (List.mem_cons_self ..))
  have htakes : TakesBelow source dest t → TakesBelow (Path.join source n) (Path.join dest n) u := by
    intro htakes q hq
    rw [hends, ← List.append_cons, h.same_source hw] at hq
    exact htakes (n :: q) hq
  -- with each level the path of the source grows, which bounds the levels
  have hlonger := byteCount_lt_join h.sourceEnded (h.proper.names _ hsome n (by simp))
  have hwhole := copyThing_whole (copyDirectoryTo below) (RoomBelow below source dest t) hchild
    (fun hr => htakes hr.1)
    (fun hd =>
      have hdeep := hbelow hchild
      ⟨hdeep.within, hdeep.same, fun hr => hdeep.done ⟨hd, htakes hr.1, by have := hr.2; omega⟩⟩)
  obtain ⟨htree, hresult⟩ := copyEntry_done (copyDirectoryTo_avoids below) source dest n u
  refine ⟨fun hok => ⟨?_, (List.nodup_cons.1 hu.nodup).2,
    fun m hm => hu.present m (List.mem_cons_of_mem _ hm)⟩, fun hr => hresult.2 (hwhole.done hr)⟩
  rw [htree]
  have hwithin := hwhole.within
  have hsame := hwhole.same (hresult.1 hok)
  rw [hendd] at hwithin hsame
  rw [hends] at hsame
  exact hu.filling.step h.apart (List.nodup_cons.1 hu.nodup).1 hwithin hsame

/-- **What copying the entries of a directory comes to**, if what the levels below come to is known. -/
theorem copyEntries_whole {below : Nat}
    (hbelow : ∀ {source dest : Text} {t : FileTree}, Awaiting source dest t →
      DirectoryWhole below source dest t)
    (h : Awaiting source dest t) (hdir : t.entryAt? (t.endOf source) = some .directory) {t1 : FileTree}
    (hmake : (makeDirectories false dest).runOn t = (.ok (), t1)) :
    (∀ faults, (((t.namesAt (t.endOf source)).toList.mapM
          (copyEntry (copyDirectoryTo below) source dest)).runOn t1).1 = .ok faults →
        faults.flatten = [] → ∀ q,
        (((t.namesAt (t.endOf source)).toList.mapM
          (copyEntry (copyDirectoryTo below) source dest)).runOn t1).2.entryAt? (t.endOf dest ++ q)
            = t.entryAt? (t.endOf source ++ q)) ∧
      (RoomBelow below source dest t →
        ∃ faults, (((t.namesAt (t.endOf source)).toList.mapM
          (copyEntry (copyDirectoryTo below) source dest)).runOn t1).1 = .ok faults ∧
          faults.flatten = []) := by
  obtain ⟨hmade, hopened, hempty⟩ := makeDirectories_opens h hmake
  have hsource : ∀ q, t1.entryAt? (t.endOf source ++ q) = t.entryAt? (t.endOf source ++ q) :=
    h.same_source hmade
  have hnames : ∀ n, n ∈ (t.namesAt (t.endOf source)).toList
      ↔ t1.entryAt? (t.endOf source ++ [n]) ≠ none := by
    intro n
    rw [hsource]
    exact mem_namesAt_iff hdir
  -- the invariant of the loop: what is copied is there, the rest is still to come
  obtain ⟨hall, hroom⟩ := mapM_fills (Underway source dest t t1)
    (copyEntry (copyDirectoryTo below) source dest) (RoomBelow below source dest t)
    (fun n rest u => copyEntry_underway hbelow h hmade hopened) (t.namesAt (t.endOf source)).toList t1
    ⟨filling_start hnames hempty, nodup_toList _, fun n hn => (mem_namesAt_iff hdir).1 hn⟩
  refine ⟨fun faults hok hflat q => ?_, hroom⟩
  have hfound := hsource []
  rw [List.append_nil] at hfound
  rw [(hall faults hok hflat).filling.whole (hfound.trans hdir) hopened q, hsource]

theorem within_of_awaiting (h : Awaiting source dest t) (depth : Nat) :
    Within (t.endOf dest) t ((copyDirectoryTo depth source dest).runOn t).2 := by
  obtain ⟨root, init, n, d, hdest, hend, hland⟩ := h.landing
  rw [hend, hdest]
  exact (copyDirectoryTo_within depth source hland).1

/-- Where no more levels are left, no directory is copied; no path that the system takes goes down so
far. -/
theorem directoryWhole_zero (h : Awaiting source dest t) : DirectoryWhole 0 source dest t := by
  refine ⟨within_of_awaiting h 0, ?_, ?_⟩
  · rw [runOn_copyDirectoryTo]
    cases t.openDirectory source with
    | error failure => simp
    | ok l =>
      rcases (makeDirectories false dest).runOn t with ⟨failure | u, t1⟩
      · simp
      · simp [copyContents]
  · rintro ⟨-, hroom, hdepth⟩
    have hfits := (hroom.fits h.present).1.short
    omega

/-- A directory is copied with its entries, if what is below them is. -/
theorem directoryWhole_succ {below : Nat}
    (hbelow : ∀ {source dest : Text} {t : FileTree}, Awaiting source dest t →
      DirectoryWhole below source dest t)
    (h : Awaiting source dest t) : DirectoryWhole (below + 1) source dest t := by
  refine (and_imp.2 (CopiedWhole.mk (within_of_awaiting h (below + 1)))) ?_
  rw [runOn_copyDirectoryTo]
  cases hopen : t.openDirectory source with
  | error failure =>
    refine ⟨by simp, fun hroom => ?_⟩
    rw [(h.sourceEnded.openDirectory_iff h.free).2 ⟨(hroom.2.1.fits h.present).1, rfl, hroom.1⟩] at hopen
    cases hopen
  | ok l =>
    obtain ⟨-, rfl, hdir⟩ := (h.sourceEnded.openDirectory_iff h.free).1 hopen
    dsimp only
    rcases hmake : (makeDirectories false dest).runOn t with ⟨failure | u, t1⟩
    · refine ⟨by simp, fun hroom => ?_⟩
      have hdone := makeDirectories_done h (hroom.2.1.fits h.present).2
      rw [hmake] at hdone
      cases hdone
    · obtain ⟨hall, hallRoom⟩ := copyEntries_whole hbelow h hdir hmake
      obtain ⟨hmade, hopened, -⟩ := makeDirectories_opens h hmake
      dsimp only
      rw [runOn_copyContents]
      rcases hrun : ((t.namesAt (t.endOf source)).toList.mapM
        (copyEntry (copyDirectoryTo below) source dest)).runOn t1 with ⟨failure | faults, t2⟩
      · rw [hrun] at hallRoom
        refine ⟨by simp, fun hroom => ?_⟩
        obtain ⟨faults, hfaults, -⟩ := hallRoom hroom.2
        cases hfaults
      · rw [hrun] at hall hallRoom
        dsimp only
        split
        -- there is room, so no entry has faults and the destination is not missing
        · rename_i hfaults
          refine ⟨by simp, fun hroom => ?_⟩
          obtain ⟨faults', hok, hflat⟩ := hallRoom hroom.2
          cases hok
          have hw := mapM_copyEntry_within below h hdir hmake
          rw [hrun] at hw
          have hend : t2.endOf dest = t.endOf dest := endOf_eq ((hmade.trans hw).workingDir) dest
          have hplace := h.destEnded.locate_of_present ((hmade.trans hw).linkFree h.free)
            (hroom.2.1.fits h.present).2
            (by rw [hend, hw.grows.directory hopened]; simp) .target
          refine absurd ?_ hfaults
          rw [hflat, absence, hplace]
          rfl
        · rename_i hnone
          rw [not_not, List.append_eq_nil_iff] at hnone
          exact ⟨fun _ => hall faults rfl hnone.1, fun _ => rfl⟩

/-- **What copying a directory comes to.** -/
theorem copyDirectoryTo_whole (depth : Nat) :
    ∀ {source dest : Text} {t : FileTree}, Awaiting source dest t →
      DirectoryWhole depth source dest t := by
  induction depth with
  | zero => exact directoryWhole_zero
  | succ below ih => exact directoryWhole_succ ih

/-- **What copying a file or a directory to a vacant place comes to.** -/
theorem copyOver_whole (h : Awaiting source dest t) :
    CopiedWhole source dest t (TakesBelow source dest t) ((copyOver source dest).runOn t).1
      ((copyOver source dest).runOn t).2 :=
  copyThing_whole _ _ h id fun hdir =>
    have hwhole := copyDirectoryTo_whole pathBytesLimit h
    ⟨hwhole.within, hwhole.same, fun hroom => hwhole.done ⟨hdir, hroom, Nat.le_add_right _ _⟩⟩

end Edit

end ModuleBuild
