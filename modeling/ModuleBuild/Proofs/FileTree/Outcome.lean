/-
  ModuleBuild.Proofs.FileTree.Outcome
  ───────────────────────────────────
  **WHAT MAKING DIRECTORIES COMES TO.**

  In a tree without links making directories at a straight path can be told
  in full.  It makes those that are missing, as far as the system takes their
  paths and no file stands on the way; whether it succeeds depends on nothing
  else.

  Two trees of which one has more directories on the way therefore end up
  with the same ones.

  Main results:
    * `makeDirectories_raised` — which directories are made, and when that succeeds;
    * `Raised.alike` — making directories in two trees that differ in missing directories.
-/
import ModuleBuild.Proofs.FileTree.Making
import ModuleBuild.Proofs.FileTree.Removing
import ModuleBuild.Proofs.FileTree.Straight

namespace ModuleBuild

namespace FileTree

variable {t t' u : FileTree} {p n : Text} {d l P : Location} {node : Node}

theorem LinkFree.put (h : LinkFree t) (hd : t.entryAt? d = some .directory)
    (hleaf : node.children = []) (hnode : ∀ path, node.entry ≠ .link path) :
    LinkFree (t.put (d ++ [n]) node) := by
  intro k path hk
  have hentry := entryAt?_put_leaf (m := n) hd hleaf k
  rw [show (t.put (d ++ [n]) node).entryAt? k = some (.link path) from hk] at hentry
  split at hentry
  · exact hnode path (Option.some.inj hentry).symm
  · split at hentry
    · cases hentry
    · exact h k path hentry.symm

/-! ## §1. Single directories. -/

/-- A directory is made in one that is there. -/
theorem makeDirectory_of_fits (hfree : LinkFree t) (hp : Path.Straight p) (hfits : Fits p)
    (hP : placeOf p = d ++ [n]) (hd : t.entryAt? d = some .directory)
    (hnone : t.entryAt? (d ++ [n]) = none) :
    t.makeDirectory p = .ok (t.put (d ++ [n]) .emptyDirectory) := by
  unfold makeDirectory onPath
  rw [hfits.check, lastLocation_of_fits hfree hp _ hfits hP hd]
  simp only [bind, Except.bind, hnone]

/-- Otherwise the system refuses. -/
theorem makeDirectory_refused (hfree : LinkFree t) (hp : Path.Straight p)
    (hcheck : checkPath p = .ok ())
    (h : ∀ d n, placeOf p = d ++ [n] → Fits p → t.entryAt? d = some .directory →
      t.entryAt? (d ++ [n]) ≠ none) :
    ∃ failure, t.makeDirectory p = .error failure ∧ failure.isSystemFault = true := by
  unfold makeDirectory onPath
  rw [hcheck]
  cases hl : t.lastLocation p fun _ => .exists with
  | error fault => exact ⟨_, rfl, rfl⟩
  | ok l =>
    obtain ⟨hfits, hplace, d, n, rfl, hd⟩ := lastLocation_cases hfree hp hcheck hl
    obtain ⟨e, he⟩ := Option.ne_none_iff_exists'.1 (h d n hplace.symm hfits hd)
    simp only [bind, Except.bind, he]
    exact ⟨_, rfl, rfl⟩

/-- What two trees may have on the way to a place: the same, a file each, or a directory that the first
lacks. -/
def NearlySame (t u : FileTree) (k : Location) : Prop :=
  t.entryAt? k = u.entryAt? k
    ∨ (∃ content content', t.entryAt? k = some (.file content) ∧ u.entryAt? k = some (.file content'))
    ∨ t.entryAt? k = none ∧ u.entryAt? k = some .directory

end FileTree

namespace Edit

open FileTree

variable {t t' u u' : FileTree} {p n root : Text} {ns : List Text} {d P : Location}
  {r r' : Except Failure Unit}

/-! ## §2. Making directories. -/

/-- No file stands on the way to a place, or at it. -/
def ClearWay (t : FileTree) (P : Location) : Prop :=
  ∀ k content, k <+: P → t.entryAt? k ≠ some (.file content)

theorem clearWay_concat {m : Text} :
    ClearWay t (P ++ [m]) ↔ ClearWay t P ∧ ∀ content, t.entryAt? (P ++ [m]) ≠ some (.file content) := by
  constructor
  · intro h
    exact ⟨fun k content hk => h k content (hk.trans (List.prefix_append ..)),
      fun content => h _ content List.prefix_rfl⟩
  · rintro ⟨habove, hlast⟩ k content hk
    rcases List.prefix_concat_iff.1 hk with rfl | hk
    · exact hlast content
    · exact habove k content hk

theorem ClearWay.above {Q : Location} (h : ClearWay t P) (hQ : Q <+: P) : ClearWay t Q :=
  fun k content hk => h k content (hk.trans hQ)

/-- What making the directories of a straight path, root and names, comes to. -/
structure Raised (root : Text) (ns : List Text) (t : FileTree) (r : Except Failure Unit)
    (t' : FileTree) : Prop where
  workingDir : t'.workingDir = t.workingDir
  ok_iff : r = .ok () ↔ Fits (Path.written root ns) ∧ ClearWay t (ns.map Utf8.nameForm)
  fault : ∀ failure, r = .error failure → failure.isSystemFault = true
  /-- A missing directory is made if the system takes its path and no file stands on the way. -/
  made : ∀ k, k <+: ns.map Utf8.nameForm → t.entryAt? k = none →
    Fits (Path.written root (ns.take k.length)) → ClearWay t k → t'.entryAt? k = some .directory
  kept : ∀ k, t'.entryAt? k = t.entryAt? k
    ∨ k <+: ns.map Utf8.nameForm ∧ t.entryAt? k = none ∧ t'.entryAt? k = some .directory ∧
        Fits (Path.written root (ns.take k.length)) ∧ ClearWay t k

/-- The last directory, once those above it are made. -/
theorem makeLast_straight (hfree : LinkFree t) (hp : Path.Straight p) (hP : placeOf p = d ++ [n])
    (hcheck : checkPath p = .ok ()) (h : (makeLast true p).runOn t = (r, t')) :
    (r = .ok () ↔ Fits p ∧ t.entryAt? d = some .directory ∧
        ∀ content, t.entryAt? (d ++ [n]) ≠ some (.file content))
      ∧ (∀ failure, r = .error failure → failure.isSystemFault = true)
      ∧ (t' = t ∧ (r = .ok () → t.entryAt? (d ++ [n]) ≠ none)
        ∨ r = .ok () ∧ t.entryAt? (d ++ [n]) = none ∧ t' = t.put (d ++ [n]) .emptyDirectory) := by
  unfold makeLast at h
  rw [runOn_tryCatch, run_change] at h
  by_cases hnew : Fits p ∧ t.entryAt? d = some .directory ∧ t.entryAt? (d ++ [n]) = none
  · obtain ⟨hfits, hd, hnone⟩ := hnew
    rw [makeDirectory_of_fits hfree hp hfits hP hd hnone] at h
    cases h
    exact ⟨⟨fun _ => ⟨hfits, hd, by rw [hnone]; simp⟩, fun _ => rfl⟩, fun _ he => (by cases he),
      .inr ⟨rfl, hnone, rfl⟩⟩
  · obtain ⟨failure, hrefused, hsystem⟩ := makeDirectory_refused hfree hp hcheck
      (fun d' n' hP' hfits hd hnone => hnew (by
        obtain ⟨rfl, hn⟩ := List.append_inj' (hP.symm.trans hP') rfl
        rw [← hn] at hnone
        exact ⟨hfits, hd, hnone⟩))
    rw [hrefused] at h
    simp only [runOn_bind, runOn_get, hsystem, Bool.true_and, Bool.not_eq_true'] at h
    by_cases hdir : t.namesDirectory p = true
    · -- it is there already
      rw [if_neg (by simp [hdir])] at h
      cases h
      have hthere := (namesDirectory_iff hfree hp).1 hdir
      rw [hP] at hthere
      have hd : t.entryAt? d = some .directory :=
        isDirectory_of_append (ne_none_of_eq_some hthere.2)
      exact ⟨⟨fun _ => ⟨hthere.1, hd, by rw [hthere.2]; simp⟩, fun _ => rfl⟩,
        fun _ he => (by cases he), .inl ⟨rfl, fun _ => ne_none_of_eq_some hthere.2⟩⟩
    · rw [if_pos (by simpa using hdir)] at h
      cases h
      refine ⟨⟨fun hr => (by cases hr), ?_⟩, ?_, .inl ⟨rfl, fun hr => (by cases hr)⟩⟩
      · rintro ⟨hfits, hd, hfile⟩
        exfalso
        cases he : t.entryAt? (d ++ [n]) with
        | none => exact hnew ⟨hfits, hd, he⟩
        | some e =>
          cases e with
          | file content => exact hfile content he
          | directory => exact hdir ((namesDirectory_iff hfree hp).2 ⟨hfits, by rw [hP, he]⟩)
          | link path => exact hfree _ path he
      · intro failure' he
        cases he
        exact hsystem

/-- **Making directories, step by step**: those above first if they are missing, and then the last
one, also when those above turn out to be there. -/
theorem runOn_makeDirectories_step (existOk : Bool) (p : Text) (t : FileTree)
    (hlast : (splitLast p).2 ≠ Path.here) :
    (makeDirectories existOk p).runOn t
      = if (splitLast p).2 ≠ [] ∧ (splitLast p).1 ≠ [] ∧ t.pathExists (splitLast p).1 = false then
          match (makeDirectories existOk (splitLast p).1).runOn t with
          | (.ok (), t1) => (makeLast existOk p).runOn t1
          | (.error failure, t1) =>
            match failure with
            | .system .exists _ _ => (makeLast existOk p).runOn t1
            | _ => (.error failure, t1)
        else (makeLast existOk p).runOn t := by
  rw [makeDirectories.eq_1 existOk p, runOn_bind, runOn_get]
  dsimp only
  split
  · rw [runOn_bind, runOn_tryCatch]
    rcases (makeDirectories existOk (splitLast p).1).runOn t with ⟨result, t1⟩
    cases result with
    | ok u =>
      rfl
    | error failure =>
      -- the failure goes on, unless a directory above was there after all
      cases failure with
      | system fault path target => cases fault <;> rfl
      | _ => rfl
  · rfl

theorem Raised.linkFree (h : Raised root ns t r t') (hfree : LinkFree t) : LinkFree t' := by
  intro k path hk
  rcases h.kept k with hsame | ⟨-, -, hmade, -⟩
  · exact hfree k path (hsame.symm.trans hk)
  · have hdir := hmade.symm.trans hk
    cases hdir

/-- Where directories are made successfully, they are there. -/
theorem Raised.directory (h : Raised root ns t r t') (hfree : LinkFree t) (hroot : Path.IsRoot root)
    (hns : ∀ m ∈ ns, Path.IsName m) (hr : r = .ok ()) {k : Location}
    (hk : k <+: ns.map Utf8.nameForm) : t'.entryAt? k = some .directory := by
  obtain ⟨hfits, hclear⟩ := h.ok_iff.1 hr
  cases he : t.entryAt? k with
  | none =>
    refine h.made k hk he ?_ (hclear.above hk)
    rw [← List.take_append_drop k.length ns] at hfits hns
    exact fits_written_of_append hroot (fun m hm => (hns m hm).1) hfits
  | some e =>
    rcases h.kept k with hsame | ⟨-, -, hmade, -⟩
    · cases e with
      | file content => exact absurd he (hclear k content hk)
      | directory => exact hsame.trans he
      | link path => exact absurd he (hfree k path)
    · exact hmade

/-- So the directory at the end is there exactly if no file stands on the way. -/
theorem Raised.directory_iff (h : Raised root ns t r t') (hfree : LinkFree t) (hroot : Path.IsRoot root)
    (hns : ∀ m ∈ ns, Path.IsName m) (hfits : Fits (Path.written root ns)) :
    t'.entryAt? (ns.map Utf8.nameForm) = some .directory ↔ ClearWay t (ns.map Utf8.nameForm) := by
  constructor
  · intro hdir k content hk hfile
    have habove := isDirectory_of_above hdir hk
    rcases h.kept k with hsame | ⟨-, hnone, -⟩
    · rw [hsame, hfile] at habove
      cases habove
    · rw [hnone] at hfile
      cases hfile
  · intro hclear
    exact h.directory hfree hroot hns (h.ok_iff.2 ⟨hfits, hclear⟩) List.prefix_rfl

theorem map_nameForm_concat (ns : List Text) (n : Text) :
    (ns ++ [n]).map Utf8.nameForm = ns.map Utf8.nameForm ++ [Utf8.nameForm n] := by
  rw [List.map_append, List.map_singleton]

/-- The names of a place on the way are the same for a path that is longer by a name. -/
theorem take_concat_of_above {k : Location} (hk : k <+: ns.map Utf8.nameForm) (n : Text) :
    (ns ++ [n]).take k.length = ns.take k.length := by
  have hle := hk.length_le
  rw [List.length_map] at hle
  exact List.take_append_of_le_length hle

/-- What a tree has become, told with a path that is longer by a name. -/
theorem Raised.kept_concat (h : Raised root ns t r t') (n : Text) (k : Location) :
    t'.entryAt? k = t.entryAt? k
      ∨ k <+: (ns ++ [n]).map Utf8.nameForm ∧ t.entryAt? k = none ∧ t'.entryAt? k = some .directory ∧
          Fits (Path.written root ((ns ++ [n]).take k.length)) ∧ ClearWay t k := by
  rcases h.kept k with hsame | ⟨hk, hnone, hdir, hfits, hclear⟩
  · exact .inl hsame
  · rw [map_nameForm_concat, take_concat_of_above hk]
    exact .inr ⟨hk.trans (List.prefix_append ..), hnone, hdir, hfits, hclear⟩

/-- Making the last directory of a path once those above it are made. -/
theorem Raised.makeLast {r1 : Except Failure Unit} {t1 : FileTree} (hfree : LinkFree t)
    (hroot : Path.IsRoot root) (hne : root ≠ []) (hns : ∀ m ∈ ns ++ [n], Path.IsName m)
    (hcheck : checkPath (Path.written root (ns ++ [n])) = .ok ()) (h1 : Raised root ns t r1 t1)
    (h : (makeLast true (Path.written root (ns ++ [n]))).runOn t1 = (r, t')) :
    Raised root (ns ++ [n]) t r t' := by
  have hmap := map_nameForm_concat ns n
  have hP : placeOf (Path.written root (ns ++ [n])) = ns.map Utf8.nameForm ++ [Utf8.nameForm n] := by
    rw [placeOf, Path.names_written hroot fun m hm => (hns m hm).1, hmap]
  -- nothing has happened yet where the last one is to be
  have hlast : t1.entryAt? (ns.map Utf8.nameForm ++ [Utf8.nameForm n])
      = t.entryAt? (ns.map Utf8.nameForm ++ [Utf8.nameForm n]) := by
    rcases h1.kept (ns.map Utf8.nameForm ++ [Utf8.nameForm n]) with hsame | ⟨hpre, -⟩
    · exact hsame
    · exact absurd hpre (not_prefix_of_concat _ _)
  obtain ⟨hok, hfault, hleft⟩ :=
    makeLast_straight (h1.linkFree hfree) (Path.straight_written hroot hne hns) hP hcheck h
  have hok' : r = .ok () ↔ Fits (Path.written root (ns ++ [n]))
      ∧ ClearWay t ((ns ++ [n]).map Utf8.nameForm) := by
    rw [hok, hmap, clearWay_concat, hlast]
    refine and_congr_right fun hfits => and_congr_left fun _ => ?_
    exact h1.directory_iff hfree hroot (fun m hm => hns m (List.mem_append_left _ hm))
      (fits_written_of_append hroot (fun m hm => (hns m hm).1) hfits)
  have hput : r = .ok () → t1.entryAt? (ns.map Utf8.nameForm ++ [Utf8.nameForm n]) = none → ∀ k,
      (t1.put (ns.map Utf8.nameForm ++ [Utf8.nameForm n]) .emptyDirectory).entryAt? k
        = if k = ns.map Utf8.nameForm ++ [Utf8.nameForm n] then some .directory else t1.entryAt? k :=
    fun hr hnone k => entryAt?_put_missing (hok.1 hr).2.1 hnone k
  have hall : (ns ++ [n]).take (ns.map Utf8.nameForm ++ [Utf8.nameForm n]).length = ns ++ [n] := by
    rw [← hmap, List.length_map, List.take_length]
  refine ⟨?_, hok', hfault, ?_, ?_⟩
  · rcases hleft with ⟨rfl, -⟩ | ⟨-, -, rfl⟩
    · exact h1.workingDir
    · rw [workingDir_put]
      exact h1.workingDir
  · -- a missing directory is the last one, or one of those above it
    intro k hk hnone hfits hclear
    rw [hmap] at hk
    rcases List.prefix_concat_iff.1 hk with rfl | hk
    · rw [hall] at hfits
      have hr := hok'.2 ⟨hfits, hmap ▸ hclear⟩
      rcases hleft with ⟨-, hsome⟩ | ⟨-, hnone1, rfl⟩
      · exact absurd (hlast.trans hnone) (hsome hr)
      · rw [hput hr hnone1, if_pos rfl]
    · rw [take_concat_of_above hk] at hfits
      have hk1 := h1.made k hk hnone hfits hclear
      rcases hleft with ⟨rfl, -⟩ | ⟨hr, hnone1, rfl⟩
      · exact hk1
      · rw [hput hr hnone1, hk1, ite_self]
  · intro k
    rcases hleft with ⟨rfl, -⟩ | ⟨hr, hnone1, rfl⟩
    · exact h1.kept_concat n k
    · rw [hput hr hnone1]
      by_cases hk : k = ns.map Utf8.nameForm ++ [Utf8.nameForm n]
      · obtain ⟨hfits, hclear⟩ := hok'.1 hr
        rw [if_pos hk, hk, hall, ← hmap]
        exact .inr ⟨List.prefix_rfl, hmap ▸ hlast.symm.trans hnone1, rfl, hfits, hclear⟩
      · rw [if_neg hk]
        exact h1.kept_concat n k

/-- If those above cannot be made, the last one is not tried. -/
theorem Raised.refused {failure : Failure} {t1 : FileTree} (hroot : Path.IsRoot root)
    (hns : ∀ m ∈ ns ++ [n], Path.IsName m) (h1 : Raised root ns t (.error failure) t1) :
    Raised root (ns ++ [n]) t (.error failure) t1 := by
  have hmap := map_nameForm_concat ns n
  have hno : ¬ (Fits (Path.written root (ns ++ [n])) ∧ ClearWay t ((ns ++ [n]).map Utf8.nameForm)) := by
    rintro ⟨hfits, hclear⟩
    have hok := h1.ok_iff.2 ⟨fits_written_of_append hroot (fun m hm => (hns m hm).1) hfits,
      hclear.above (hmap ▸ List.prefix_append ..)⟩
    cases hok
  refine ⟨h1.workingDir, ⟨fun hok => (by cases hok), fun h => absurd h hno⟩, h1.fault, ?_,
    h1.kept_concat n⟩
  intro k hk hnone hfits hclear
  rw [hmap] at hk
  rcases List.prefix_concat_iff.1 hk with hk' | hk'
  · exfalso
    refine hno ⟨?_, by rw [hmap, ← hk']; exact hclear⟩
    rwa [List.take_of_length_le] at hfits
    rw [hk', ← hmap, List.length_map]
  · rw [take_concat_of_above hk'] at hfits
    exact h1.made k hk' hnone hfits hclear

/-- Where something lies already there is nothing to make. -/
theorem raised_of_present (hfits : Fits (Path.written root ns))
    (hsome : t.entryAt? (ns.map Utf8.nameForm) ≠ none) : ∃ r, Raised root ns t r t := by
  have hpresent : ∀ k, k <+: ns.map Utf8.nameForm → t.entryAt? k ≠ none :=
    fun k hk hnone => hsome (entryAt?_eq_none_of_below hnone hk)
  by_cases hclear : ClearWay t (ns.map Utf8.nameForm)
  · exact ⟨.ok (), rfl, ⟨fun _ => ⟨hfits, hclear⟩, fun _ => rfl⟩, fun _ h => (by cases h),
      fun k hk hnone => absurd hnone (hpresent k hk), fun _ => .inl rfl⟩
  · refine ⟨.error (.system .exists [] none), rfl,
      ⟨fun h => (by cases h), fun h => absurd h.2 hclear⟩, ?_,
      fun k hk hnone => absurd hnone (hpresent k hk), fun _ => .inl rfl⟩
    intro failure h
    cases h
    rfl

theorem splitLast_root (hroot : Path.IsRoot root) (hne : root ≠ []) :
    (splitLast (Path.written root [])).2 = [] := by
  rcases hroot with rfl | rfl | rfl
  · exact absurd rfl hne
  · decide
  · decide

/-- At the root there is nothing to make. -/
theorem raised_root (hfree : LinkFree t) (hroot : Path.IsRoot root) (hne : root ≠ [])
    (hcheck : checkPath (Path.written root []) = .ok ())
    (h : (makeDirectories true (Path.written root [])).runOn t = (r, t')) : Raised root [] t r t' := by
  have hp : Path.Straight (Path.written root []) := Path.straight_written hroot hne (by simp)
  have hnames : Path.names (Path.written root []) = [] := Path.names_written hroot (by simp)
  have hlast := splitLast_root hroot hne
  have hfits : Fits (Path.written root []) := by
    refine ⟨hcheck, ?_, by rw [hnames]; simp⟩
    rcases hroot with rfl | rfl | rfl
    · exact absurd rfl hne
    · decide
    · decide
  rw [runOn_makeDirectories_step _ _ _ (by rw [hlast]; decide), if_neg (by simp [hlast])] at h
  -- the system refuses to make it, and finds it there
  obtain ⟨failure, hrefused, hsystem⟩ := makeDirectory_refused hfree hp hcheck (by
    intro d n hd
    rw [placeOf, hnames] at hd
    simp at hd)
  have hdir : t.namesDirectory (Path.written root []) = true := by
    refine (namesDirectory_iff hfree hp).2 ⟨hfits, ?_⟩
    rw [placeOf, hnames]
    rfl
  unfold Edit.makeLast at h
  rw [runOn_tryCatch, run_change, hrefused] at h
  simp only [runOn_bind, runOn_get, hsystem, hdir] at h
  cases h
  obtain ⟨r, hraised⟩ := raised_of_present (t := t) hfits (by simp)
  have hok := hraised.ok_iff.2 ⟨hfits, fun k content hk hfile => by
    rw [List.map_nil, List.prefix_nil] at hk
    rw [hk] at hfile
    cases hfile⟩
  rw [← hok]
  exact hraised

/-- **Which directories are made, and when that succeeds**, by induction over the path from its root on:
whatever becomes of the directories above, the last one is made or refused after them. -/
theorem makeDirectories_raised (hroot : Path.IsRoot root) (hne : root ≠ []) {ns : List Text} :
    ∀ {t t' : FileTree} {r : Except Failure Unit}, LinkFree t → (∀ m ∈ ns, Path.IsName m) →
      checkPath (Path.written root ns) = .ok () →
      (makeDirectories true (Path.written root ns)).runOn t = (r, t') → Raised root ns t r t' := by
  induction ns using List.reverseRecOn with
  | nil =>
    intro t t' r hfree _ hcheck h
    exact raised_root hfree hroot hne hcheck h
  | append_singleton ns n ih =>
    intro t t' r hfree hns hcheck h
    have hinit : ∀ m ∈ ns, Path.IsName m := fun m hm => hns m (List.mem_append_left _ hm)
    have hparts : ∀ m ∈ ns, Path.IsPart m := fun m hm => (hinit m hm).1
    have hn : Path.IsName n := hns n (by simp)
    -- a path that the system takes has a front that it takes
    have hcheck' : checkPath (Path.written root ns) = .ok () := by
      rw [checkPath_eq_ok_iff, nameable_iff_names] at hcheck ⊢
      rw [Path.names_written hroot hparts]
      rw [Path.names_written hroot fun m hm => (hns m hm).1] at hcheck
      exact fun m hm => hcheck m (List.mem_append_left _ hm)
    have hp' := Path.straight_written hroot hne hinit
    have hplace : placeOf (Path.written root ns) = ns.map Utf8.nameForm := by
      unfold placeOf
      rw [Path.names_written hroot hparts]
    have hsplit := splitLast_written hroot hparts hn.1
    rw [runOn_makeDirectories_step _ _ _ (by rw [hsplit]; exact hn.2.1), hsplit] at h
    dsimp only at h
    split at h
    · rcases hrun : (makeDirectories true (Path.written root ns)).runOn t with ⟨r1, t1⟩
      have h1 := ih hfree hinit hcheck' hrun
      rw [hrun] at h
      cases r1 with
      | ok x => exact h1.makeLast hfree hroot hne hns hcheck h
      | error failure =>
        dsimp only at h
        split at h
        · exact h1.makeLast hfree hroot hne hns hcheck h
        · cases h
          exact h1.refused hroot hns
    -- if the directory above is there, none has to be made
    · rename_i hthere
      have hexists : t.pathExists (Path.written root ns) = true := by
        by_contra hmissing
        exact hthere ⟨hn.1.1, hp'.ne_nil, by simpa using hmissing⟩
      obtain ⟨hfits, hsome⟩ := (pathExists_iff hfree hp').1 hexists
      rw [hplace] at hsome
      obtain ⟨r1, h1⟩ := raised_of_present hfits hsome
      exact h1.makeLast hfree hroot hne hns hcheck h

/-- **Making directories in two trees**, one of which has directories on the way that the other
lacks: it succeeds in both or in neither, and afterwards the one lacks no more than before; where they
had the same they have the same. -/
theorem Raised.alike (h : Raised root ns t r t') (h' : Raised root ns u r' u')
    (hless : ∀ k, k <+: ns.map Utf8.nameForm → NearlySame t u k) :
    (r = .ok () ↔ r' = .ok ()) ∧ ∀ k, k <+: ns.map Utf8.nameForm →
      NearlySame t' u' k ∧ (t.entryAt? k = u.entryAt? k → t'.entryAt? k = u'.entryAt? k) := by
  -- a file is in the way in both trees or in neither
  have hclear : ∀ k, k <+: ns.map Utf8.nameForm → (ClearWay t k ↔ ClearWay u k) := by
    intro k hk
    constructor
    · intro hway j content hj hfile
      rcases hless j (hj.trans hk) with hsame | ⟨old, -, hold, -⟩ | ⟨-, hdir⟩
      · exact hway j content hj (hsame.trans hfile)
      · exact hway j old hj hold
      · rw [hdir] at hfile
        cases hfile
    · intro hway j content hj hfile
      rcases hless j (hj.trans hk) with hsame | ⟨-, new, -, hnew⟩ | ⟨hnone, -⟩
      · exact hway j content hj (hsame.symm.trans hfile)
      · exact hway j new hj hnew
      · rw [hnone] at hfile
        cases hfile
  have hsame : ∀ k, k <+: ns.map Utf8.nameForm → t.entryAt? k = u.entryAt? k →
      t'.entryAt? k = u'.entryAt? k := by
    intro k hk hsame
    rcases h.kept k with ht | ⟨-, hnone, hmade, hfits, hway⟩
    · rcases h'.kept k with hu | ⟨-, hnone, hmade, hfits, hway⟩
      · rw [ht, hu, hsame]
      · rw [hmade, h.made k hk (hsame.trans hnone) hfits ((hclear k hk).2 hway)]
    · rw [hmade, h'.made k hk (hsame.symm.trans hnone) hfits ((hclear k hk).1 hway)]
  refine ⟨by rw [h.ok_iff, h'.ok_iff, hclear _ List.prefix_rfl], fun k hk => ⟨?_, hsame k hk⟩⟩
  -- what differed before: two files, or a directory that one of the trees lacks
  rcases hless k hk with heq | ⟨content, content', hfile, hfile'⟩ | ⟨hnone, hdir⟩
  · exact .inl (hsame k hk heq)
  · refine .inr (.inl ⟨content, content', ?_, ?_⟩)
    · rcases h.kept k with ht | ⟨-, hnone, -⟩
      · exact ht.trans hfile
      · rw [hnone] at hfile
        cases hfile
    · rcases h'.kept k with hu | ⟨-, hnone, -⟩
      · exact hu.trans hfile'
      · rw [hnone] at hfile'
        cases hfile'
  · have hu : u'.entryAt? k = some .directory := by
      rcases h'.kept k with hu | ⟨-, -, hmade, -⟩
      · exact hu.trans hdir
      · exact hmade
    rcases h.kept k with ht | ⟨-, -, hmade, -⟩
    · exact .inr (.inr ⟨ht.trans hnone, hu⟩)
    · exact .inl (hmade.trans hu.symm)

end Edit

end ModuleBuild
