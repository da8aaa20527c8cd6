/-
  ModuleBuild.Proofs.FileTree.Contents
  ────────────────────────────────────
  **WHAT FILES HOLD.**

  To each location belong the bytes of the file there, none where there is no
  file.  Making directories writes no bytes, and neither does opening a file
  to append to it; what is appended goes behind the bytes of that file, and
  no other file is written.

  Main results:
    * `Unwritten` — no file is written;
    * `makeDirectories_unwritten`, `openToAppend_openAt` — what writes no file;
    * `append_openAt` — what is appended, and where.
-/
import ModuleBuild.Proofs.FileTree.Making
import ModuleBuild.Proofs.FileTree.Keeping
import ModuleBuild.Proofs.Path.Normal

namespace ModuleBuild

namespace FileTree

variable {t t' t'' : FileTree} {p : Text} {l k : Location} {content bs : Bytes}

/-! ## §1. Bytes. -/

/-- The bytes of the file at a location; where there is no file, none. -/
def bytesAt (t : FileTree) (l : Location) : Bytes :=
  match t.entryAt? l with
  | some (.file content) => content
  | _ => []

theorem bytesAt_of_file (h : t.entryAt? l = some (.file content)) : t.bytesAt l = content := by
  unfold bytesAt
  rw [h]

theorem bytesAt_of_none (h : t.entryAt? l = none) : t.bytesAt l = [] := by
  unfold bytesAt
  rw [h]

theorem bytesAt_of_entryAt? (h : t'.entryAt? k = t.entryAt? k) : t'.bytesAt k = t.bytesAt k := by
  unfold bytesAt
  rw [h]

theorem bytesAt_close (t : FileTree) (k : Location) : t.close.bytesAt k = t.bytesAt k := rfl

/-- The file that is open lies at a location. -/
structure OpenAt (t : FileTree) (l : Location) : Prop where
  openFile : t.openFile = .named l
  isFile : ∃ content, t.entryAt? l = some (.file content)

/-- No file is written, and none is opened. -/
structure Unwritten (t t' : FileTree) : Prop where
  bytesAt : ∀ k, t'.bytesAt k = t.bytesAt k
  closed : t.openFile = .closed → t'.openFile = .closed

theorem Unwritten.refl (t : FileTree) : Unwritten t t := ⟨fun _ => rfl, id⟩

theorem Unwritten.trans (h : Unwritten t t') (h' : Unwritten t' t'') : Unwritten t t'' :=
  ⟨fun k => (h'.bytesAt k).trans (h.bytesAt k), fun hclosed => h'.closed (h.closed hclosed)⟩

/-! ## §2. Single changes. -/

theorem openFile_put_of_closed (h : t.openFile = .closed) (l : Location) (n : Node) :
    (t.put l n).openFile = .closed := by
  cases l with
  | nil => exact h
  | cons name rest =>
    show (if t.openFile = .named (name :: rest) then t.openFile
      else t.openFile.without (name :: rest)) = .closed
    rw [h, if_neg (by simp)]
    rfl

/-- A directory is made where nothing was. -/
theorem makeDirectory_unwritten (h : t.makeDirectory p = .ok t') : Unwritten t t' := by
  obtain ⟨l, hl, hnone, rfl⟩ := makeDirectory_eq_put h
  obtain ⟨init, n, d, -, -, -, rfl⟩ := leads_of_lastLocation hl
  refine ⟨fun k => ?_, fun hclosed => openFile_put_of_closed hclosed _ _⟩
  by_cases hd : t.entryAt? d = some .directory
  · by_cases hk : k = d ++ [Utf8.nameForm n]
    · subst hk
      rw [bytesAt_of_none hnone]
      unfold FileTree.bytesAt
      rw [entryAt?_put_missing hd hnone, if_pos rfl]
    · refine bytesAt_of_entryAt? ?_
      rw [entryAt?_put_missing hd hnone, if_neg hk]
  · exact bytesAt_of_entryAt? (entryAt?_put_of_no_directory hd k)

/-- Below a file nothing lies. -/
theorem entryAt?_below_file (h : t.entryAt? l = some (.file content)) (hk : l <+: k) (hne : k ≠ l) :
    t.entryAt? k = none := by
  obtain ⟨rest, rfl⟩ := hk
  cases rest with
  | nil => exact absurd (List.append_nil l) hne
  | cons name rest =>
    by_contra hsome
    rw [isDirectory_of_append hsome] at h
    cases h

/-- A file that is put in place of a file. -/
theorem entryAt?_put_file (h : t.entryAt? l = some (.file content)) (k : Location) :
    (t.put l (.file bs)).entryAt? k = if k = l then some (.file bs) else t.entryAt? k := by
  rcases List.eq_nil_or_concat l with rfl | ⟨d, n, rfl⟩
  · cases h
  · rw [List.concat_eq_append] at h ⊢
    have hd : t.entryAt? d = some .directory := isDirectory_of_append (by rw [h]; simp)
    rw [entryAt?_put_leaf hd rfl]
    split
    · rfl
    · rename_i hk
      split
      · rename_i hpre
        exact (entryAt?_below_file h hpre hk).symm
      · rfl

/-- Where a file is to be written: at a vacant name in a directory, or where a file lies. -/
theorem fileAt_found (hp : Path.isAbsolute p = true) {place : Location × Option Bytes}
    (h : t.fileAt p = .ok place) :
    (∃ d n, place = (d ++ [n], none) ∧ t.entryAt? d = some .directory ∧ t.entryAt? (d ++ [n]) = none)
      ∨ ∃ l content, place = (l, some content) ∧ t.entryAt? l = some (.file content) := by
  unfold fileAt at h
  cases hlocate : t.locate .file p with
  | error failure =>
    rw [hlocate] at h
    cases h
  | ok found =>
    have hfollow := (locate_eq_ok_iff.1 hlocate).2.2.2
    rw [if_pos hp] at hfollow
    have hholds := follow_holds (entryAt?_root t) found hfollow
    rw [hlocate] at h
    cases found with
    | vacant d n =>
      cases h
      exact .inl ⟨d, n, rfl, hholds.1, hholds.2⟩
    | occupied l =>
      dsimp only at h
      split at h
      · rename_i content hentry
        cases h
        exact .inr ⟨l, content, rfl, hentry⟩
      · cases h

/-- **Opening a file to append to it writes no bytes**; then the file is there, and open. -/
theorem openToAppend_openAt (hp : Path.isAbsolute p = true) (h : t.openToAppend p = .ok t') :
    ∃ l, OpenAt t' l ∧ ∀ k, t'.bytesAt k = t.bytesAt k := by
  unfold openToAppend at h
  cases hplace : t.fileAt p with
  | error failure =>
    rw [hplace] at h
    cases h
  | ok place =>
    rw [hplace] at h
    cases h
    -- the file is new and empty, or stays with what it holds
    rcases fileAt_found hp hplace with ⟨d, n, rfl, hd, hnone⟩ | ⟨l, content, rfl, hentry⟩
    · have hput : ∀ k, (t.put (d ++ [n]) (.file [])).entryAt? k
          = if k = d ++ [n] then some (.file []) else t.entryAt? k := by
        intro k
        rw [entryAt?_put_leaf hd rfl]
        split
        · rfl
        · split
          · rename_i hpre
            rw [entryAt?_eq_none_of_below hnone hpre]
          · rfl
      refine ⟨d ++ [n], ⟨rfl, [], (hput _).trans (if_pos rfl)⟩, fun k => ?_⟩
      by_cases hk : k = d ++ [n]
      · subst hk
        rw [bytesAt_of_none hnone]
        exact bytesAt_of_file ((hput _).trans (if_pos rfl))
      · exact bytesAt_of_entryAt? ((hput k).trans (if_neg hk))
    · have hput : ∀ k, (t.put l (.file content)).entryAt? k
          = if k = l then some (.file content) else t.entryAt? k := entryAt?_put_file hentry
      refine ⟨l, ⟨rfl, content, (hput l).trans (if_pos rfl)⟩, fun k => ?_⟩
      by_cases hk : k = l
      · subst hk
        rw [bytesAt_of_file hentry]
        exact bytesAt_of_file ((hput _).trans (if_pos rfl))
      · exact bytesAt_of_entryAt? ((hput k).trans (if_neg hk))

/-- **What is appended goes behind the bytes of the open file**, which stays open. -/
theorem append_openAt (h : OpenAt t l) (bs : Bytes) :
    OpenAt (t.append bs) l
      ∧ ∀ k, (t.append bs).bytesAt k = t.bytesAt k ++ if k = l then bs else [] := by
  obtain ⟨hopen, content, hfile⟩ := h
  have happend : t.append bs = t.put l (.file (content ++ bs)) := by
    unfold append openContent
    rw [hopen]
    dsimp only
    rw [hfile]
  have hput : ∀ k, (t.put l (.file (content ++ bs))).entryAt? k
      = if k = l then some (.file (content ++ bs)) else t.entryAt? k := entryAt?_put_file hfile
  rw [happend]
  refine ⟨⟨?_, content ++ bs, (hput l).trans (if_pos rfl)⟩, fun k => ?_⟩
  · cases l with
    | nil => exact hopen
    | cons name rest =>
      show (if t.openFile = .named (name :: rest) then t.openFile
        else t.openFile.without (name :: rest)) = .named (name :: rest)
      rw [if_pos hopen, hopen]
  · by_cases hk : k = l
    · subst hk
      rw [if_pos rfl, bytesAt_of_file hfile]
      exact bytesAt_of_file ((hput _).trans (if_pos rfl))
    · rw [if_neg hk, List.append_nil]
      exact bytesAt_of_entryAt? ((hput k).trans (if_neg hk))

end FileTree

open FileTree

namespace Edit

variable {α β : Type}

/-! ## §3. Edits that write no file. -/

/-- An edit writes no file, whatever comes of it. -/
def WritesNothing (e : Edit α) : Prop := ∀ t, Unwritten t (e.runOn t).2

theorem writesNothing_pure (a : α) : WritesNothing (pure a) := fun t => .refl t

theorem writesNothing_throw (failure : Failure) : WritesNothing (throw failure : Edit α) :=
  fun t => .refl t

theorem writesNothing_get : WritesNothing (get : Edit FileTree) := fun t => .refl t

theorem WritesNothing.bind {e : Edit α} {f : α → Edit β} (he : WritesNothing e)
    (hf : ∀ a, WritesNothing (f a)) : WritesNothing (e >>= f) := by
  intro t
  have hfirst := he t
  rw [runOn_bind]
  rcases hrun : e.runOn t with ⟨failure | a, t'⟩
  · rw [hrun] at hfirst
    exact hfirst
  · rw [hrun] at hfirst
    exact hfirst.trans (hf a t')

theorem WritesNothing.tryCatch {e : Edit α} {handler : Failure → Edit α} (he : WritesNothing e)
    (hhandler : ∀ failure, WritesNothing (handler failure)) :
    WritesNothing (tryCatch e handler) := by
  intro t
  have hfirst := he t
  rw [runOn_tryCatch]
  rcases hrun : e.runOn t with ⟨failure | a, t'⟩
  · rw [hrun] at hfirst
    exact hfirst.trans (hhandler failure t')
  · rw [hrun] at hfirst
    exact hfirst

theorem writesNothing_makeDirectory (p : Text) : WritesNothing (change (·.makeDirectory p)) := by
  intro t
  rw [run_change]
  cases h : t.makeDirectory p with
  | ok t' => exact makeDirectory_unwritten h
  | error failure => exact .refl t

/-- **Making directories writes no file.** -/
theorem makeDirectories_unwritten (existOk : Bool) (p : Text) :
    WritesNothing (makeDirectories existOk p) := by
  induction hlength : p.length using Nat.strongRecOn generalizing p with | ind length ih => ?_
  rw [makeDirectories]
  refine writesNothing_get.bind fun t => ?_
  have hlast : WritesNothing (makeLast existOk p) := by
    refine (writesNothing_makeDirectory p).tryCatch fun failure => ?_
    refine writesNothing_get.bind fun t => ?_
    split
    · exact writesNothing_throw failure
    · exact writesNothing_pure _
  split
  · rename_i habove
    have hrec := ih _ (hlength ▸ length_splitLast_lt habove.1) (splitLast p).1 rfl
    refine WritesNothing.bind (hrec.tryCatch fun failure => ?_) fun _ => ?_
    · split
      · exact writesNothing_pure _
      · exact writesNothing_throw _
    · split
      · exact writesNothing_pure _
      · exact hlast
  · exact hlast

/-- Whether the directories can be made is told, and else nothing. -/
theorem runOn_tryMakeDirectories (p : Text) (t : FileTree) :
    (tryMakeDirectories p).runOn t
      = match (makeDirectories true p).runOn t with
        | (.ok _, t') => (.ok none, t')
        | (.error failure, t') =>
          (if failure.isSystemFault then .ok (some failure.message) else .error failure, t') := by
  unfold tryMakeDirectories
  simp only [runOn, ExceptT.run, StateT.run, tryCatch, tryCatchThe, MonadExceptOf.tryCatch,
    ExceptT.tryCatch, ExceptT.mk, bind, StateT.bind, ExceptT.bind]
  rcases makeDirectories true p t with ⟨failure | _, t'⟩
  · cases failure <;> rfl
  · rfl

theorem tryMakeDirectories_unwritten (p : Text) : WritesNothing (tryMakeDirectories p) := by
  intro t
  have hmade := makeDirectories_unwritten true p t
  rw [runOn_tryMakeDirectories]
  rcases hrun : (makeDirectories true p).runOn t with ⟨failure | a, t'⟩
  · rw [hrun] at hmade
    exact hmade
  · rw [hrun] at hmade
    exact hmade

end Edit

end ModuleBuild
