/-
  ModuleBuild.Proofs.FileTree.Holding
  ───────────────────────────────────
  **FILES THAT A PATH NAMES ITSELF.**

  A path holds some bytes if its last name is that of a file, not of a link to
  one.  A file that is replaced leaves such bytes at the path by which it was
  replaced, even if that path ended at a link before.  Every other path goes
  on holding what it held: a link that leads to a file is no part of the way
  to a directory, so no way is lost with it.

  Main results:
    * `holds_iff` — where a path holds something, it leads there;
    * `Leads.replaced` — ways to directories are the same when a file was replaced;
    * `TakesFile.last` — the last name of a path at which a file can lie;
    * `holds_replaceText`, `Holds.replaceText` — what paths hold when a file was replaced;
    * `Storable.exists_replaceText`, `storable_replaceText` — where one text can be stored, others can.
-/
import ModuleBuild.Proofs.FileTree.Naming
import ModuleBuild.Proofs.FileTree.Putting
import ModuleBuild.Proofs.FileTree.Straight

namespace ModuleBuild

namespace FileTree

variable {t t' : FileTree} {p q : Text} {content old bytes : Bytes} {dir d k m : Location}
  {n : Text} {ns init : List Text} {links : Nat} {slash : Bool} {place : Place}

/-! ## §1. What a path holds. -/

/-- The last name of a path is that of a file with some bytes. -/
def Holds (t : FileTree) (p : Text) (content : Bytes) : Prop :=
  t.findLink? p = some (.file content)

/-- A file that is found under its last name is found there when links are followed, too. -/
theorem follow_target_of_name (h : follow t .name slash links dir ns = .ok (.occupied m))
    (hm : t.entryAt? m = some (.file content)) :
    follow t .target slash links dir ns = .ok (.occupied m) := by
  fun_induction follow t .name slash links dir ns with
  | case1 slash links dir =>
    cases h
    exact follow_nil
  | case2 slash links dir rest ih =>
    rw [follow_here]
    exact ih h
  | case3 slash links dir rest _ ih =>
    rw [follow_up]
    exact ih h
  | case4 => cases h
  | case5 => cases h
  | case6 => cases h
  | case7 => cases h
  | case8 slash links dir name rest h1 h2 h3 h4 next he ih =>
    rw [follow_named h1 h2, if_neg (by simp), if_neg h4, he]
    exact ih h
  | case9 slash links dir name rest h1 h2 h3 h4 next c he h5 =>
    cases h
    rw [follow_named h1 h2, if_neg (by simp), if_neg h4, he]
    exact if_pos h5
  | case10 => cases h
  | case11 slash links dir name rest h1 h2 h3 h4 next path he h5 =>
    -- a last name that is a link is no file
    cases h
    rw [he] at hm
    cases hm
  | case12 => cases h
  | case13 => cases h
  | case14 slash dir name rest h1 h2 h3 h4 next path he h5 more h6 ih =>
    rw [follow_named h1 h2, if_neg (by simp), if_neg h4, he]
    simp only [reduceCtorEq, false_and, and_false, if_false, if_neg h6]
    exact ih h

theorem Holds.locate (h : t.Holds p content) :
    ∃ m, t.locate .target p = .ok (.occupied m) ∧ t.entryAt? m = some (.file content) := by
  unfold Holds findLink? at h
  split at h
  · rename_i m hlocate
    obtain ⟨hcheck, hnil, hlong, hfollow⟩ := locate_eq_ok_iff.1 hlocate
    exact ⟨m, locate_eq_ok_iff.2 ⟨hcheck, hnil, hlong, follow_target_of_name hfollow h⟩, h⟩
  · cases h

theorem Holds.readBytes (h : t.Holds p content) : t.readBytes p = .ok content := by
  obtain ⟨m, hlocate, hfile⟩ := h.locate
  exact readBytes_of_locate hlocate hfile

theorem namesFile_of_readBytes (h : t.readBytes p = .ok content) : t.namesFile p = true := by
  obtain ⟨m, hlocate, hfile⟩ := exists_of_readBytes h
  unfold namesFile find?
  simp only [hlocate, hfile]

theorem Holds.namesFile (h : t.Holds p content) : t.namesFile p = true :=
  namesFile_of_readBytes h.readBytes

/-- **Where a path holds something, it leads there.** -/
theorem holds_iff (hnames : Path.names p = init ++ [n]) (hn : Path.IsName n)
    (hslash : Text.endsWith p "/" = false) :
    t.Holds p content
      ↔ ∃ d, Leads t (t.startOf p) init d
          ∧ t.locate .target p = .ok (.occupied (d ++ [Utf8.nameForm n]))
          ∧ t.entryAt? (d ++ [Utf8.nameForm n]) = some (.file content) := by
  constructor
  · intro h
    obtain ⟨m, hlocate, hfile⟩ := h.locate
    obtain ⟨d, hleads, -⟩ := lastLocation_of_locate hnames hn hslash (fun _ => .busy) hlocate
    unfold Holds findLink? at h
    split at h
    · rename_i k hname
      rcases place_of_locate hnames hn hslash hleads hname with ⟨-, hplace⟩ | ⟨-, hplace⟩ | ⟨hno, -⟩
      · cases hplace
      · cases hplace
        exact ⟨d, hleads,
          locate_last hnames hn hslash (Grows.refl t) rfl hleads hname h (.inr (by simp)), h⟩
      · exact absurd rfl hno
    · cases h
  · rintro ⟨d, hleads, hlocate, hfile⟩
    unfold Holds findLink?
    rw [locate_last hnames hn hslash (Grows.refl t) rfl hleads hlocate hfile (.inl rfl)]
    exact hfile

/-! ## §2. Ways past a file that is replaced. -/

/-- What names lead to is what is found by following them. -/
theorem Leads.place_of_follow (h : Leads t dir ns d) :
    ∀ {slash : Bool} {links : Nat}, follow t .target slash links dir ns = .ok place →
      place = .occupied d := by
  induction h with
  | nil dir =>
    intro slash links h
    rw [follow_nil] at h
    cases h
    rfl
  | here _ ih =>
    intro slash links h
    rw [follow_here] at h
    exact ih h
  | up _ ih =>
    intro slash links h
    rw [follow_up] at h
    exact ih h
  | into h1 h2 he _ ih =>
    intro slash links h
    obtain ⟨-, hfinds⟩ := finds_of_follow h1 h2 h
    rw [he] at hfinds
    cases hfinds with
    | directory hnext => exact ih hnext
  | through h1 h2 he _ ih =>
    intro slash links h
    obtain ⟨-, hfinds⟩ := finds_of_follow h1 h2 h
    rw [he] at hfinds
    cases hfinds with
    | link _ haim => cases haim
    | through _ _ _ hnext => exact ih hnext

/-- A tree in which a file lies where no directory was, nor a link that leads to one. -/
structure Exchanged (t : FileTree) (k : Location) (bytes : Bytes) (t' : FileTree) : Prop where
  workingDir : t'.workingDir = t.workingDir
  self : t'.entryAt? k = some (.file bytes)
  other : ∀ j, j ≠ k → t'.entryAt? j = t.entryAt? j
  leaf : t.entryAt? k ≠ some .directory
  link : ∀ path d, t.entryAt? k = some (.link path) →
    ¬ Leads t (if Path.isAbsolute path then [] else k.dropLast) (Path.names path) d

/-- **Ways to directories are the same when a file was replaced.** -/
theorem Leads.replaced (h : Leads t dir ns d) (hex : Exchanged t k bytes t') : Leads t' dir ns d := by
  induction h with
  | nil dir => exact .nil dir
  | here _ ih => exact .here ih
  | up _ ih => exact .up ih
  | @into dir d name rest h1 h2 he _ ih =>
    have hne : dir ++ [Utf8.nameForm name] ≠ k := fun hk => hex.leaf (hk ▸ he)
    exact .into h1 h2 ((hex.other _ hne).trans he) ih
  | @through dir d name rest path h1 h2 he h ih =>
    have hne : dir ++ [Utf8.nameForm name] ≠ k := by
      rintro rfl
      obtain ⟨mid, hmid, -⟩ := h.split rfl
      refine hex.link path mid he ?_
      rwa [List.dropLast_concat]
    exact .through h1 h2 ((hex.other _ hne).trans he) ih

theorem Exchanged.grows (h : Exchanged t k bytes t') : Grows t' t := by
  intro j e he hfile
  by_cases hj : j = k
  · rw [hj, h.self] at he
    exact absurd (Option.some.inj he).symm (hfile bytes)
  · rw [← h.other j hj]
    exact he

/-- Where the last name of a path is looked up, it is looked up when a file was replaced. -/
theorem Exchanged.parentOf (h : Exchanged t k bytes t') (hparent : t.parentOf p = .ok d) :
    t'.parentOf p = .ok d := by
  have hleads := (leads_of_parentOf hparent).replaced h
  have hsame := hleads.follow_eq h.grows maxLinks
  rw [← hparent]
  unfold FileTree.parentOf
  unfold startOf at hsame
  rw [h.workingDir, hsame]

/-- The path by which a file was replaced holds the new bytes. -/
theorem Exchanged.holds (h : Exchanged t k bytes t') (hnames : Path.names p = init ++ [n])
    (hn : Path.IsName n) (hslash : Text.endsWith p "/" = false) (hleads : Leads t (t.startOf p) init d)
    (hk : k = d ++ [Utf8.nameForm n]) {aim : Aim} (hlocate : t.locate aim p = .ok place) :
    t'.Holds p bytes := by
  have hleads' : Leads t' (t'.startOf p) init d := startOf_eq h.workingDir p ▸ hleads.replaced h
  refine (holds_iff hnames hn hslash).2 ⟨d, hleads', ?_, hk ▸ h.self⟩
  exact locate_last hnames hn hslash h.grows h.workingDir.symm hleads' hlocate (hk ▸ h.self)
    (.inr (by simp))

/-- Another path goes on holding what it held. -/
theorem Holds.exchanged (h : t.Holds p content) (hp : Path.Straight p)
    (hnames : Path.names p = init ++ [n]) (hex : Exchanged t k bytes t')
    (hlast : ∀ e, k ≠ e ++ [Utf8.nameForm n]) : t'.Holds p content := by
  have hn : Path.IsName n := hp.isName n (by rw [hnames]; simp)
  have hslash : Text.endsWith p "/" = false := hp.not_slash (by rw [hnames]; simp)
  obtain ⟨d, hleads, hlocate, hfile⟩ := (holds_iff hnames hn hslash).1 h
  have hfile' : t'.entryAt? (d ++ [Utf8.nameForm n]) = some (.file content) :=
    (hex.other _ fun hk => hlast d hk.symm).trans hfile
  have hleads' : Leads t' (t'.startOf p) init d := startOf_eq hex.workingDir p ▸ hleads.replaced hex
  refine (holds_iff hnames hn hslash).2 ⟨d, hleads', ?_, hfile'⟩
  exact locate_last hnames hn hslash hex.grows hex.workingDir.symm hleads' hlocate hfile'
    (.inr (by simp))

/-! ## §3. Replacing what was read. -/

/-- A path can be followed to its end, and no directory is there: a file or nothing. -/
def TakesFile (t : FileTree) (p : Text) : Prop :=
  ∃ place, t.locate .target p = .ok place ∧ place.Holds t
    ∧ ∀ m, place = .occupied m → t.entryAt? m ≠ some .directory

theorem takesFile_of_readBytes (hread : t.readBytes p = .ok old) : t.TakesFile p := by
  obtain ⟨m, hlocate, hfile⟩ := exists_of_readBytes hread
  refine ⟨.occupied m, hlocate, ?_, fun k hk => ?_⟩
  · show t.entryAt? m ≠ none
    rw [hfile]
    simp
  · cases hk
    rw [hfile]
    simp

/-- A link whose last use leads to no directory is on no way to one. -/
theorem not_leads_of_link {path : Text} (hd : t.entryAt? d = some .directory) (hn : Path.IsName n)
    (hlink : t.entryAt? (d ++ [Utf8.nameForm n]) = some (.link path))
    (hfollow : follow t .target slash links d [n] = .ok place)
    (hm : ∀ m, place = .occupied m → t.entryAt? m ≠ some .directory) (e : Location) :
    ¬ Leads t (if Path.isAbsolute path then [] else d) (Path.names path) e := by
  intro hleads
  obtain ⟨-, hfinds⟩ := finds_of_follow hn.2.1 hn.2.2 hfollow
  rw [hlink] at hfinds
  cases hfinds with
  | link _ haim => cases haim
  | through _ _ _ hnext =>
    rw [List.append_nil] at hnext
    have hstart : t.entryAt? (if Path.isAbsolute path then [] else d) = some .directory := by
      split
      · rfl
      · exact hd
    exact hm e (hleads.place_of_follow hnext) (hleads.isDirectory hstart)

/-- **The last name of a path that takes a file** is looked up in a directory; it is not that of a
directory, nor of a link that is on a way to one. -/
theorem TakesFile.last (h : t.TakesFile p) (hnames : Path.names p = init ++ [n]) (hn : Path.IsName n)
    (hleads : Leads t (t.startOf p) init d) :
    t.entryAt? d = some .directory ∧ t.entryAt? (d ++ [Utf8.nameForm n]) ≠ some .directory
      ∧ ∀ path e, t.entryAt? (d ++ [Utf8.nameForm n]) = some (.link path) →
        ¬ Leads t (if Path.isAbsolute path then [] else d) (Path.names path) e := by
  obtain ⟨place, hlocate, hholds, hno⟩ := h
  obtain ⟨-, -, -, hfollow⟩ := locate_eq_ok_iff.1 hlocate
  rw [hnames] at hfollow
  obtain ⟨d', links, hleads', -, hlast⟩ := exists_of_follow_concat hfollow
  have hdet := hleads'.det hleads
  subst hdet
  obtain ⟨-, hfinds⟩ := finds_of_follow hn.2.1 hn.2.2 hlast
  generalize he : t.entryAt? (d' ++ [Utf8.nameForm n]) = found at hfinds
  have hd : found ≠ none → t.entryAt? d' = some .directory := fun hsome =>
    isDirectory_of_append (by rwa [he])
  cases hfinds with
  | vacant => exact ⟨hholds.1, by simp, fun path e h => by cases h⟩
  | directory hend =>
    rw [follow_nil] at hend
    cases hend
    exact absurd he (hno _ rfl)
  | file => exact ⟨hd (by simp), by simp, fun path e h => by cases h⟩
  | link _ haim => cases haim
  | through =>
    refine ⟨hd (by simp), by simp, fun path e h => ?_⟩
    cases h
    exact not_leads_of_link (hd (by simp)) hn he hlast hno e

/-- A file is replaced if the new one can be made beside it and its path ends with a name, under which
there is no directory. -/
theorem replaceText_eq_ok_iff {text : Text} :
    t.replaceText p text = .ok t'
      ↔ (checkPath (t.preparedPath p) = .ok ()
          ∧ ∃ d, t.parentOfPrepared (t.preparedPath p) = .ok d)
        ∧ checkPath p = .ok () ∧ Text.endsWith p "/" = false
        ∧ ∃ k, t.lastLocation p (fun _ => .busy) = .ok k ∧ t.isDirectory k = false
          ∧ ∃ bytes, Utf8.encode text = .ok bytes ∧ t' = (t.remove k).put k (.file bytes) := by
  unfold replaceText onPath onMove placeFile
  dsimp only
  cases checkPath (t.preparedPath p) with
  | error failure => simp [bind, Except.bind]
  | ok _ =>
    cases t.parentOfPrepared (t.preparedPath p) with
    | error fault => simp [bind, Except.bind, Except.map]
    | ok d =>
      cases Utf8.encode text with
      | error fault => simp [bind, Except.bind, Except.map]
      | ok bytes =>
        cases checkPath p with
        | error failure => simp [bind, Except.bind, Except.map]
        | ok _ =>
          cases t.lastLocation p fun _ => .busy with
          | error fault => simp [bind, Except.bind, Except.map]
          | ok k =>
            cases Text.endsWith p "/" <;> cases hleaf : t.isDirectory k <;>
              simp [bind, Except.bind, Except.map, hleaf]
            exact eq_comm

/-- **Replacing a file** exchanges what the last name of the path names. -/
theorem exchanged_replaceText {text : Text} (htakes : t.TakesFile p)
    (h : t.replaceText p text = .ok t') :
    ∃ init n d bytes, Path.names p = init ++ [n] ∧ Path.IsName n ∧ Leads t (t.startOf p) init d
      ∧ t.lastLocation p (fun _ => .busy) = .ok (d ++ [Utf8.nameForm n])
      ∧ Utf8.encode text = .ok bytes ∧ Exchanged t (d ++ [Utf8.nameForm n]) bytes t' := by
  obtain ⟨l, bytes, hlast, hencode, rfl⟩ := replaceText_eq_put h
  obtain ⟨init, n, d, hnames, hn, hleads, rfl⟩ := leads_of_lastLocation hlast
  obtain ⟨hparent, hleaf, hlink⟩ := htakes.last hnames hn hleads
  have hd : (t.remove (d ++ [Utf8.nameForm n])).entryAt? d = some .directory := by
    rw [entryAt?_remove_concat, if_neg (not_prefix_of_concat _ _), hparent]
  refine ⟨init, n, d, bytes, hnames, hn, hleads, hlast, hencode, by simp, ?_, fun j hj => ?_, hleaf, ?_⟩
  · rw [entryAt?_put_leaf hd rfl, if_pos rfl]
    rfl
  · rw [entryAt?_put_leaf hd rfl, if_neg hj, entryAt?_remove_concat]
    by_cases hpre : d ++ [Utf8.nameForm n] <+: j
    · -- below the last name there is nothing, before and after
      rw [if_pos hpre]
      by_contra hsome
      exact hleaf (isDirectory_of_below (fun hnone => hsome hnone.symm) hpre fun e => hj e.symm)
    · rw [if_neg hpre, if_neg hpre]
  · intro path e he
    rw [List.dropLast_concat]
    exact hlink path e he

/-- What was replaced by a path is held by it. -/
theorem holds_replaceText {text : Text} (htakes : t.TakesFile p)
    (h : t.replaceText p text = .ok t') :
    ∃ bytes, Utf8.encode text = .ok bytes ∧ t'.Holds p bytes := by
  obtain ⟨init, n, d, bytes, hnames, hn, hleads, -, hencode, hex⟩ := exchanged_replaceText htakes h
  obtain ⟨place, hlocate, -⟩ := htakes
  obtain ⟨-, -, hslash, -⟩ := replaceText_eq_ok_iff.1 h
  exact ⟨bytes, hencode, hex.holds hnames hn hslash hleads rfl hlocate⟩

/-- What another path holds stays, if the last names of the two paths differ. -/
theorem Holds.replaceText {text : Text} {n' : Text} {init' : List Text} (h : t.Holds p content)
    (hp : Path.Straight p) (hnames : Path.names p = init ++ [n])
    (hread : t.readBytes q = .ok old) (hreplace : t.replaceText q text = .ok t')
    (hnames' : Path.names q = init' ++ [n']) (hne : Utf8.nameForm n' ≠ Utf8.nameForm n) :
    t'.Holds p content := by
  obtain ⟨init'', n'', d, bytes, hsplit, -, -, -, -, hex⟩ := exchanged_replaceText (takesFile_of_readBytes hread) hreplace
  obtain ⟨-, hn⟩ := List.append_inj' (hnames'.symm.trans hsplit) rfl
  rw [← List.singleton_inj.1 hn] at hex
  refine h.exchanged hp hnames hex fun e he => hne ?_
  exact List.singleton_inj.1 (List.append_inj' he rfl).2

/-- Some text can be stored in place of what a path names. -/
def Storable (t : FileTree) (p : Text) : Prop := ∃ text u, t.replaceText p text = .ok u

/-- **Where one text can be stored, every text can** that has bytes. -/
theorem Storable.exists_replaceText {text : Text} (h : t.Storable p)
    (hencode : Utf8.encode text = .ok bytes) : ∃ u, t.replaceText p text = .ok u := by
  obtain ⟨text', u, hreplace⟩ := h
  obtain ⟨hprepared, hcheck, hslash, k, hlast, hleaf, -⟩ := replaceText_eq_ok_iff.1 hreplace
  exact ⟨_, replaceText_eq_ok_iff.2 ⟨hprepared, hcheck, hslash, k, hlast, hleaf, bytes, hencode, rfl⟩⟩

/-- A file that was replaced can be replaced again. -/
theorem storable_replaceText {text : Text} (htakes : t.TakesFile p)
    (h : t.replaceText p text = .ok t') : t'.Storable p := by
  obtain ⟨init, n, d, bytes, -, -, -, hlast, hencode, hex⟩ := exchanged_replaceText htakes h
  obtain ⟨⟨hcheckPrepared, parent, hprepare⟩, hcheck, hslash, -⟩ := replaceText_eq_ok_iff.1 h
  have hprepared : t'.preparedPath p = t.preparedPath p := by
    unfold preparedPath absolute
    rw [hex.workingDir]
  have hprepare' : t'.parentOfPrepared (t.preparedPath p) = .ok parent := by
    unfold parentOfPrepared at hprepare ⊢
    split at hprepare
    · cases hprepare
    · rename_i hroom
      rw [if_neg hroom]
      exact hex.parentOf hprepare
  have hlast' : t'.lastLocation p (fun _ => .busy) = .ok (d ++ [Utf8.nameForm n]) := by
    unfold lastLocation at hlast ⊢
    cases hparent : t.parentOf p with
    | error fault =>
      rw [hparent] at hlast
      cases hlast
    | ok d' =>
      rw [hparent] at hlast
      rw [hex.parentOf hparent]
      exact hlast
  have hleaf : t'.isDirectory (d ++ [Utf8.nameForm n]) = false := by
    unfold isDirectory
    rw [hex.self]
    rfl
  rw [← hprepared] at hcheckPrepared hprepare'
  exact ⟨text, _, replaceText_eq_ok_iff.2
    ⟨⟨hcheckPrepared, parent, hprepare'⟩, hcheck, hslash, _, hlast', hleaf, bytes, hencode, rfl⟩⟩

end FileTree

end ModuleBuild
