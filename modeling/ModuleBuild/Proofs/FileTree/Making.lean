/-
  ModuleBuild.Proofs.FileTree.Making
  ──────────────────────────────────
  **MAKING DIRECTORIES.**

  Directories are made one after the other, from the first that is missing
  on.  Whether or not all of them can be made, nothing changes but directories
  that appear on the way to where the names settle; if all are made, the names
  lead there.

  Main results:
    * `makeDirectories_made` — what making directories leaves, and when it succeeds;
    * `makeDirectories_last` — what it leaves when only the last directory may be missing.
-/
import ModuleBuild.Proofs.FileTree.Putting
import ModuleBuild.Proofs.Run

namespace ModuleBuild

open FileTree

namespace FileTree

variable {t t' : FileTree} {p : Text}

theorem makeDirectory_eq_put (h : t.makeDirectory p = .ok t') :
    ∃ l, t.lastLocation p (fun _ => .exists) = .ok l ∧ t.entryAt? l = none ∧
      t' = t.put l .emptyDirectory := by
  unfold makeDirectory onPath at h
  cases hcheck : checkPath p with
  | error failure =>
    rw [hcheck] at h
    cases h
  | ok u =>
    rw [hcheck] at h
    cases hl : t.lastLocation p fun _ => .exists with
    | error fault =>
      rw [hl] at h
      cases h
    | ok l =>
      rw [hl] at h
      simp only [bind, Except.bind] at h
      cases he : t.entryAt? l with
      | none =>
        simp only [he] at h
        cases h
        exact ⟨l, rfl, he, rfl⟩
      | some e =>
        simp only [he] at h
        cases h

/-- A directory that is put where nothing was. -/
theorem entryAt?_put_missing {d : Location} {m : Text} (hd : t.entryAt? d = some .directory)
    (hnone : t.entryAt? (d ++ [m]) = none) (k : Location) :
    (t.put (d ++ [m]) .emptyDirectory).entryAt? k
      = if k = d ++ [m] then some .directory else t.entryAt? k := by
  rw [entryAt?_put_leaf hd rfl]
  split
  · rfl
  · split
    · rename_i hpre
      rw [entryAt?_eq_none_of_below hnone hpre]
    · rfl

end FileTree

namespace Edit

variable {t t' : FileTree} {existOk : Bool} {p : Text} {r : Except Failure Unit}

/-! ## §1. One directory. -/

/-- The last step of making directories: the last of them is made. -/
def makeLast (existOk : Bool) (p : Text) : Edit Unit := do
  try change (·.makeDirectory p)
  catch failure =>
    if !(failure.isSystemFault && existOk && (← get).namesDirectory p) then throw failure

/-- What the last step leaves: the tree as it was, or one more directory. -/
theorem makeLast_made (hstart : t.entryAt? (t.startOf p) = some .directory)
    (h : (makeLast existOk p).runOn t = (r, t')) :
    (t' = t ∧ (r = .ok () → existOk = true ∧ ∃ d, t.locate .target p = .ok (.occupied d) ∧
        t.entryAt? d = some .directory))
      ∨ ∃ init n d, Path.names p = init ++ [n] ∧ Path.IsName n ∧ Leads t (t.startOf p) init d ∧
          t.entryAt? d = some .directory ∧ t.entryAt? (d ++ [Utf8.nameForm n]) = none ∧
          t' = t.put (d ++ [Utf8.nameForm n]) .emptyDirectory := by
  unfold makeLast at h
  rw [runOn_tryCatch, run_change] at h
  cases hmade : t.makeDirectory p with
  | ok t1 =>
    rw [hmade] at h
    cases h
    obtain ⟨l, hl, hnone, rfl⟩ := makeDirectory_eq_put hmade
    obtain ⟨init, n, d, hnames, hn, hd, rfl⟩ := leads_of_lastLocation hl
    exact .inr ⟨init, n, d, hnames, hn, hd, hd.isDirectory hstart, hnone, rfl⟩
  | error failure =>
    rw [hmade] at h
    simp only [runOn_bind, runOn_get] at h
    refine .inl ?_
    split at h
    · cases h
      exact ⟨rfl, fun hr => by cases hr⟩
    · rename_i hok
      cases h
      refine ⟨rfl, fun _ => ?_⟩
      simp only [Bool.not_eq_true', Bool.not_eq_false, Bool.and_eq_true] at hok
      exact ⟨hok.1.2, locate_of_namesDirectory hok.2⟩

/-! ## §2. One after the other. -/

/-- Making directories: those above first, if they are missing, and then the last one. -/
theorem runOn_makeDirectories (existOk : Bool) {p : Text} (t : FileTree)
    (hlast : (splitLast p).2 ≠ Path.here) :
    ∃ t1, (t1 = t ∨ (splitLast p).2 ≠ [] ∧
        t1 = ((makeDirectories existOk (splitLast p).1).runOn t).2) ∧
      ((∃ failure, (makeDirectories existOk p).runOn t = (.error failure, t1))
        ∨ (makeDirectories existOk p).runOn t = (makeLast existOk p).runOn t1) := by
  rw [makeDirectories.eq_1 existOk p, runOn_bind, runOn_get]
  dsimp only
  split
  · rename_i habove
    refine ⟨((makeDirectories existOk (splitLast p).1).runOn t).2, .inr ⟨habove.1, rfl⟩, ?_⟩
    rw [runOn_bind, runOn_tryCatch]
    rcases hrun : (makeDirectories existOk (splitLast p).1).runOn t with ⟨result, t1⟩
    cases result with
    | ok u => exact .inr rfl
    | error failure =>
      dsimp only
      -- the failure goes on, unless a directory above was there after all
      split <;> rename_i hhandled <;> split at hhandled
      · cases hhandled
        exact .inr rfl
      · cases hhandled
      · cases hhandled
      · cases hhandled
        exact .inl ⟨failure, rfl⟩
  · exact ⟨t, .inl rfl, .inr rfl⟩

theorem splitLast_written {root : Text} {ns : List Text} {n : Text} (hroot : Path.IsRoot root)
    (hns : ∀ m ∈ ns, Path.IsPart m) (hn : Path.IsPart n) :
    splitLast (Path.written root (ns ++ [n])) = (Path.written root ns, n) := by
  unfold splitLast
  rw [Path.baseName_written hroot hn, Path.dirName_written hroot hns hn, if_neg hn.1]

/-- What making directories leaves. -/
structure Made (existOk : Bool) (t : FileTree) (start : Location) (ns : List Text)
    (r : Except Failure Unit) (t' : FileTree) : Prop where
  workingDir : t'.workingDir = t.workingDir
  proper : Proper t → Proper t'
  /-- Nothing changes, or directories appear on the way to where the names settle. -/
  opened : (∀ k, t'.entryAt? k = t.entryAt? k)
    ∨ ∃ l, Settles t start ns l ∧ t.entryAt? l = none ∧ Opened t t' l
  /-- If all are made, the names lead there; the last one was missing if it had to be. -/
  leads : r = .ok () → ∃ d, Leads t' start ns d ∧ (existOk = false → t.entryAt? d = none)

theorem Made.extends {start : Location} {ns : List Text} (h : Made existOk t start ns r t') :
    Extends t t' := by
  rcases h.opened with hsame | ⟨l, -, -, hopen⟩
  · intro k e he
    rw [hsame, he]
  · exact hopen.extends

/-- Where names lead to once the directories above are made, they settled before. -/
theorem Made.settles {start d : Location} {ns : List Text} (h : Made existOk t start ns r t')
    (hd : Leads t' start ns d) : Settles t start ns d ∧ Opened t t' d := by
  rcases h.opened with hsame | ⟨l, hl, -, hopen⟩
  · refine ⟨(hd.grows ?_).settles, fun k => .inl (hsame k)⟩
    intro k e he _
    rw [← hsame, he]
  · have heq := hl.eq_of_opened hopen hd
    subst heq
    exact ⟨hl, hopen⟩

/-- What was made on the way to some names was made on the way to one name more. -/
theorem Made.opened_concat {start : Location} {init : List Text} {n : Text}
    (h : Made existOk t start init r t')
    (hlast : Path.IsName n ∨ ∀ l, Settles t start init l → t.entryAt? l ≠ none) :
    (∀ k, t'.entryAt? k = t.entryAt? k)
      ∨ ∃ l, Settles t start (init ++ [n]) l ∧ t.entryAt? l = none ∧ Opened t t' l := by
  rcases h.opened with hsame | ⟨l, hl, hnone, hopen⟩
  · exact .inl hsame
  · rcases hlast with hn | hdots
    · have hbelow : t.entryAt? (l ++ [Utf8.nameForm n]) = none :=
        entryAt?_eq_none_of_below hnone (List.prefix_append ..)
      refine .inr ⟨l ++ [Utf8.nameForm n], hl.concat hn hbelow, hbelow, ?_⟩
      intro k
      rcases hopen k with heq | ⟨h1, h2, hpre⟩
      · exact .inl heq
      · exact .inr ⟨h1, h2, hpre.trans (List.prefix_append ..)⟩
    · exact absurd hnone (hdots l hl)

/-- The last step leaves what making directories is to leave. -/
theorem Made.makeLast {r' : Except Failure Unit} {t1 : FileTree} {init : List Text} {n : Text}
    (h : Made existOk t (t.startOf p) init r' t1) (hnames : Path.names p = init ++ [n])
    (hstart : t.entryAt? (t.startOf p) = some .directory)
    (hlast : Path.IsName n ∨ ∀ l, Settles t (t.startOf p) init l → t.entryAt? l ≠ none)
    (hrun : (makeLast existOk p).runOn t1 = (r, t')) :
    Made existOk t (t.startOf p) (init ++ [n]) r t' := by
  have hsame : t1.startOf p = t.startOf p := by
    unfold startOf
    rw [h.workingDir]
  have hstart1 : t1.entryAt? (t1.startOf p) = some .directory := by
    rw [hsame]
    exact h.extends _ _ hstart
  rcases makeLast_made hstart1 hrun with ⟨rfl, hok⟩ | ⟨init', n', d, hnames', hn, hd, hdir, hnone, rfl⟩
  · -- the directory was there, or could not be made
    refine ⟨h.workingDir, h.proper, h.opened_concat hlast, ?_⟩
    intro hr
    obtain ⟨htrue, d, hlocate, hdir⟩ := hok hr
    have hd := leads_of_locate hlocate hdir
    rw [hsame, hnames] at hd
    exact ⟨d, hd, fun hfalse => by rw [htrue] at hfalse; cases hfalse⟩
  · -- one more directory was made, where the names before the last lead
    rw [hnames] at hnames'
    obtain ⟨rfl, hlast'⟩ := List.append_inj' hnames' rfl
    cases hlast'
    rw [hsame] at hd
    obtain ⟨hsettles, hopen⟩ := h.settles hd
    have hnone' : t.entryAt? (d ++ [Utf8.nameForm n]) = none := by
      by_contra hsome
      obtain ⟨e, he⟩ := Option.ne_none_iff_exists'.1 hsome
      rw [h.extends _ _ he] at hnone
      cases hnone
    have hput := entryAt?_put_missing hdir hnone
    refine ⟨?_, ?_, .inr ⟨d ++ [Utf8.nameForm n], hsettles.concat hn hnone', hnone', ?_⟩, ?_⟩
    · rw [workingDir_put, h.workingDir]
    · exact fun hproper => (h.proper hproper).put (Utf8.isName_nameForm hn) hdir rfl
    · intro k
      rw [hput]
      split
      · rename_i hk
        rw [hk]
        exact .inr ⟨hnone', rfl, List.prefix_refl _⟩
      · rcases hopen k with heq | ⟨h1, h2, hpre⟩
        · exact .inl heq
        · exact .inr ⟨h1, h2, hpre.trans (List.prefix_append ..)⟩
    · intro _
      refine ⟨d ++ [Utf8.nameForm n], (hd.grows ?_).append ?_, fun _ => hnone'⟩
      · intro k e he _
        rw [hput, if_neg, he]
        rintro rfl
        rw [he] at hnone
        cases hnone
      · refine .into hn.2.1 hn.2.2 ?_ (.nil _)
        rw [hput, if_pos rfl]

/-- Names that lead up settle where they lead, and that is a directory. -/
theorem isDirectory_of_settles_ups {start l : Location} {ups : Nat}
    (hstart : t.entryAt? start = some .directory)
    (h : Settles t start (List.replicate ups Path.up) l) : t.entryAt? l = some .directory := by
  obtain ⟨xs, ys, d, hns, hd, rfl, hnames, -⟩ := h
  cases ys with
  | nil =>
    rw [List.map_nil, List.append_nil]
    exact hd.isDirectory hstart
  | cons y ys =>
    have hup : y = Path.up := List.eq_of_mem_replicate (n := ups) (hns ▸ by simp)
    exact absurd hup (hnames y (List.mem_cons_self ..)).2.2

/-- At a root there is no directory to make. -/
theorem makeDirectories_root {root : Text} (hroot : Path.IsRoot root)
    (hstart : t.entryAt? (t.startOf (Path.written root [])) = some .directory)
    (h : (makeDirectories existOk (Path.written root [])).runOn t = (r, t')) :
    Made existOk t (t.startOf (Path.written root [])) [] r t' := by
  have hlast : (splitLast (Path.written root [])).2 = [] := by
    rw [Path.written_nil]
    rcases hroot with rfl | rfl | rfl <;> rfl
  obtain ⟨t1, ht1, hrun⟩ := runOn_makeDirectories existOk (p := Path.written root []) t
    (by rw [hlast]; decide)
  rcases ht1 with rfl | ⟨hne, -⟩
  · rcases hrun with ⟨failure, hrun⟩ | hrun
    · rw [hrun] at h
      cases h
      exact ⟨rfl, id, .inl fun _ => rfl, fun hr => by cases hr⟩
    · rw [hrun] at h
      rcases makeLast_made hstart h with ⟨rfl, hok⟩ | ⟨init, n, d, hnames, -⟩
      · refine ⟨rfl, id, .inl fun _ => rfl, fun hr => ⟨_, .nil _, ?_⟩⟩
        intro hfalse
        rw [(hok hr).1] at hfalse
        cases hfalse
      · rw [Path.names_written hroot (by simp)] at hnames
        simp at hnames
  · exact absurd hlast hne

/-- **What making directories leaves, and when it succeeds.**  By induction on the names, from the last:
the directories above are made first. -/
theorem makeDirectories_made (existOk : Bool) {root : Text} (hroot : Path.IsRoot root)
    {ns : List Text} :
    ∀ {t : FileTree} {r : Except Failure Unit} {t' : FileTree}, Path.Tidy (root ≠ []) ns →
      t.entryAt? (t.startOf (Path.written root ns)) = some .directory →
      (makeDirectories existOk (Path.written root ns)).runOn t = (r, t') →
      Made existOk t (t.startOf (Path.written root ns)) ns r t' := by
  induction ns using List.reverseRecOn with
  | nil => exact fun _ hstart h => makeDirectories_root hroot hstart h
  | append_singleton init n ih =>
    intro t r t' htidy hstart h
    have hparts := htidy.isPart
    have hinit : ∀ m ∈ init, Path.IsPart m := fun m hm => hparts m (by simp [hm])
    have hn : Path.IsPart n := hparts n (by simp)
    have hsplit := splitLast_written hroot hinit hn
    have hnames := Path.names_written hroot hparts
    have hsame : ∀ u : FileTree, u.startOf (Path.written root init)
        = u.startOf (Path.written root (init ++ [n])) := by
      intro u
      rw [startOf_written hroot hinit, startOf_written hroot hparts]
    have hlast : Path.IsName n
        ∨ ∀ l, Settles t (t.startOf (Path.written root (init ++ [n]))) init l →
            t.entryAt? l ≠ none := by
      by_cases hup : n = Path.up
      · -- then all names lead up
        subst hup
        obtain ⟨ups, rfl⟩ := htidy.eq_replicate
        exact .inr fun l hl => ne_none_of_eq_some (isDirectory_of_settles_ups hstart hl)
      · exact .inl ⟨hn, htidy.ne_here n (by simp), hup⟩
    obtain ⟨t1, ht1, hrun⟩ := runOn_makeDirectories existOk
      (p := Path.written root (init ++ [n])) t
      (by rw [hsplit]; exact htidy.ne_here n (by simp))
    rw [hsplit] at ht1
    obtain ⟨r1, hmade⟩ : ∃ r1,
        Made existOk t (t.startOf (Path.written root (init ++ [n]))) init r1 t1 := by
      rcases ht1 with rfl | ⟨-, ht1⟩
      · exact ⟨.error .nullInPath, rfl, id, .inl fun _ => rfl, fun hr => by cases hr⟩
      · rw [← hsame]
        exact ⟨_, ih htidy.init (by rw [hsame]; exact hstart) (by rw [ht1])⟩
    rcases hrun with ⟨failure, hrun⟩ | hrun
    · rw [hrun] at h
      cases h
      exact ⟨hmade.workingDir, hmade.proper, hmade.opened_concat hlast, fun hr => by cases hr⟩
    · rw [hrun] at h
      exact hmade.makeLast hnames hstart hlast h

/-- Where names settle whose last one is missing, once the others lead somewhere. -/
theorem eq_of_settles_concat {start d l : Location} {init : List Text} {n : Text}
    (hstart : t.entryAt? start = some .directory) (hd : Leads t start init d)
    (h : Settles t start (init ++ [n]) l) (hl : t.entryAt? l = none) :
    l = d ++ [Utf8.nameForm n] := by
  rcases h.cases_concat with hleads | ⟨m, hm, rfl, -⟩
  · rw [hleads.isDirectory hstart] at hl
    cases hl
  · rw [hm.det hd.settles]

/-- **What making a directory leaves when those above it are there**: one directory, where nothing
was, if it is made. -/
theorem makeDirectories_last {root : Text} (hroot : Path.IsRoot root) {init : List Text} {n : Text}
    {d : Location} (htidy : Path.Tidy (root ≠ []) (init ++ [n]))
    (hstart : t.entryAt? (t.startOf (Path.written root (init ++ [n]))) = some .directory)
    (hd : Leads t (t.startOf (Path.written root (init ++ [n]))) init d)
    (h : (makeDirectories false (Path.written root (init ++ [n]))).runOn t = (r, t')) :
    Made false t (t.startOf (Path.written root (init ++ [n]))) (init ++ [n]) r t' ∧
      (∀ k, t'.entryAt? k = t.entryAt? k ∨ (k = d ++ [Utf8.nameForm n] ∧ t.entryAt? k = none ∧
        t'.entryAt? k = some .directory)) ∧
      (r = .ok () → t.entryAt? (d ++ [Utf8.nameForm n]) = none ∧
        Leads t' (t.startOf (Path.written root (init ++ [n]))) (init ++ [n])
          (d ++ [Utf8.nameForm n])) := by
  have hmade := makeDirectories_made false hroot htidy hstart h
  refine ⟨hmade, ?_, ?_⟩
  · intro k
    rcases hmade.opened with hsame | ⟨l, hl, hnone, hopen⟩
    · exact .inl (hsame k)
    · rw [eq_of_settles_concat hstart hd hl hnone] at hopen
      rcases hopen k with heq | ⟨h1, h2, hpre⟩
      · exact .inl heq
      · -- above the new directory there were directories before
        rcases List.prefix_concat_iff.1 hpre with hk | hk
        · exact .inr ⟨hk, h1, h2⟩
        · rw [isDirectory_of_above (hd.isDirectory hstart) hk] at h1
          cases h1
  · intro hr
    obtain ⟨d', hd', hnone⟩ := hmade.leads hr
    have heq := eq_of_settles_concat hstart hd (hmade.settles hd').1 (hnone rfl)
    subst heq
    exact ⟨hnone rfl, hd'⟩

end Edit

end ModuleBuild
