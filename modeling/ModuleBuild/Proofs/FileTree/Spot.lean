/-
  ModuleBuild.Proofs.FileTree.Spot
  ────────────────────────────────
  **PATHS THAT STAND FOR ONE FILE.**

  A pass reads a module and replaces it at the same path.  Reading follows
  links and replacing does not, so both mean the same file only if the path
  does not end at a link.  Such a path is a spot: the system takes it or
  refuses it for its length, and what is read there is what is replaced
  there.

  In a tree without links every straight path is one.  So is every path below
  an open directory, through whatever links that directory was reached, as
  long as there is no link below it.

  Main results:
    * `Enters.follow_append` — behind names that lead to a directory others are followed from there;
    * `Spot.of_straight`, `Spot.of_below` — the paths that stand for one file;
    * `replaceText_spot` — a file that is replaced at a spot;
    * `storable_iff_hasRoom` — where a file was read one can be stored, if there is room beside it.
-/
import ModuleBuild.Proofs.FileTree.Holding
import ModuleBuild.Proofs.FileTree.Settling
import ModuleBuild.Proofs.FileTree.Straight
import ModuleBuild.Proofs.FileTree.Walking

namespace ModuleBuild

namespace FileTree

variable {t u : FileTree} {aim : Aim} {slash : Bool} {links : Nat} {dir d k l : Location}
  {p start : Text} {xs ns : List Text} {place : Place}
  {content : Bytes}

/-! ## §1. Paths below a path. -/

/-- The path of something below a straight path. -/
theorem below_straight (hstart : Path.Straight start) (hns : ∀ n ∈ ns, Path.IsName n) :
    Path.Straight (Path.below start ns) ∧ Path.names (Path.below start ns) = Path.names start ++ ns := by
  obtain ⟨root, hroot, hne, hwritten⟩ := hstart.written
  have hall : ∀ n ∈ Path.names start ++ ns, Path.IsName n := by
    intro n hn
    rcases List.mem_append.1 hn with hn | hn
    · exact hstart.isName n hn
    · exact hns n hn
  have hbelow : Path.below start ns = Path.written root (Path.names start ++ ns) := by
    rw [hwritten, Path.names_written hroot fun m hm => (hstart.isName m hm).1]
    exact Path.below_written hroot (fun m hm => (hstart.isName m hm).1) fun m hm => (hns m hm).1
  rw [hbelow, Path.names_written hroot fun m hm => (hall m hm).1]
  exact ⟨Path.straight_written hroot hne hall, rfl⟩

theorem placeOf_below (hstart : Path.Straight start) (hspelled : Path.Spelled start)
    (hns : ∀ n ∈ ns, Path.IsName n) (hforms : ∀ n ∈ ns, Utf8.nameForm n = n) :
    placeOf (Path.below start ns) = Path.names start ++ ns := by
  unfold placeOf
  rw [(below_straight hstart hns).2, List.map_append, List.map_congr_left hspelled, List.map_id',
    List.map_congr_left hforms, List.map_id']

/-- Below a path that the system does not take there is none that it takes. -/
theorem fits_of_fits_below (hstart : Path.Straight start) (hns : ∀ n ∈ ns, Path.IsName n)
    (h : Fits (Path.below start ns)) : Fits start := by
  obtain ⟨root, hroot, -, hwritten⟩ := hstart.written
  have hall : ∀ n ∈ Path.names start ++ ns, Path.IsPart n := by
    intro n hn
    rcases List.mem_append.1 hn with hn | hn
    · exact (hstart.isName n hn).1
    · exact (hns n hn).1
  have hbelow : Path.below start ns = Path.written root (Path.names start ++ ns) := by
    rw [hwritten, Path.names_written hroot fun m hm => (hstart.isName m hm).1]
    exact Path.below_written hroot (fun m hm => (hstart.isName m hm).1) fun m hm => (hns m hm).1
  rw [hbelow] at h
  rw [hwritten]
  exact fits_written_of_append hroot hall h

/-! ## §2. Names behind a directory. -/

/-- **Behind names that lead to a directory others are followed from there**, with what is left of the
links. -/
theorem Enters.follow_append (h : Enters t links dir xs d) :
    ∃ links', ∀ (aim : Aim) (slash : Bool) (ns : List Text), ns ≠ [] →
      follow t aim slash links dir (xs ++ ns) = follow t aim slash links' d ns := by
  induction h with
  | nil links dir => exact ⟨links, fun _ _ _ _ => rfl⟩
  | here _ ih =>
    obtain ⟨links', hrest⟩ := ih
    exact ⟨links', fun aim slash ns hns => by
      rw [List.cons_append, follow_here, hrest aim slash ns hns]⟩
  | up _ ih =>
    obtain ⟨links', hrest⟩ := ih
    exact ⟨links', fun aim slash ns hns => by
      rw [List.cons_append, follow_up, hrest aim slash ns hns]⟩
  | into h1 h2 h3 he _ ih =>
    obtain ⟨links', hrest⟩ := ih
    refine ⟨links', fun aim slash ns hns => ?_⟩
    rw [List.cons_append, follow_named h1 h2, if_neg (by simp [hns]), if_neg h3, he]
    exact hrest aim slash ns hns
  | @through more dir d name rest path h1 h2 h3 he hpath _ ih =>
    obtain ⟨links', hrest⟩ := ih
    refine ⟨links', fun aim slash ns hns => ?_⟩
    have hne : rest ++ ns ≠ [] := by simp [hns]
    rw [List.cons_append, follow_named h1 h2, if_neg (by simp [hns]), if_neg h3, he]
    simp only [hne, false_and, if_false, if_neg hpath, decide_false, Bool.false_and, Bool.or_false]
    rw [← List.append_assoc]
    exact hrest aim slash ns hns

/-- Names that are followed are no longer than the system allows. -/
theorem short_of_follow (h : follow t aim slash links dir ns = .ok place) :
    ∀ m ∈ ns, Path.IsName m → Utf8.byteCount m ≤ maxNameBytes := by
  -- a name is measured before it is looked up; dots are not, and are no names of things
  fun_induction follow t aim slash links dir ns with
  | case1 => exact fun m hm => absurd hm List.not_mem_nil
  | case2 slash links dir rest ih => exact List.forall_mem_cons.2 ⟨fun hn => absurd rfl hn.2.1, ih h⟩
  | case3 slash links dir rest _ ih => exact List.forall_mem_cons.2 ⟨fun hn => absurd rfl hn.2.2, ih h⟩
  | case4 => cases h
  | case5 => cases h
  | case6 slash links dir name h1 h2 h3 next h4 =>
    exact List.forall_mem_singleton.2 fun _ => Nat.not_lt.1 h3
  | case7 => cases h
  | case8 slash links dir name rest h1 h2 h3 h4 next he ih =>
    exact List.forall_mem_cons.2 ⟨fun _ => Nat.not_lt.1 h4, ih h⟩
  | case9 slash links dir name rest h1 h2 h3 h4 next c he h5 =>
    rw [h5.1]
    exact List.forall_mem_singleton.2 fun _ => Nat.not_lt.1 h4
  | case10 => cases h
  | case11 slash links dir name rest h1 h2 h3 h4 next path he h5 =>
    rw [h5.1]
    exact List.forall_mem_singleton.2 fun _ => Nat.not_lt.1 h4
  | case12 => cases h
  | case13 => cases h
  | case14 slash dir name rest h1 h2 h3 h4 next path he h5 more h6 ih =>
    exact List.forall_mem_cons.2 ⟨fun _ => Nat.not_lt.1 h4, fun m hm => ih h m (List.mem_append_right _ hm)⟩

/-- A straight path that leads somewhere is one that the system takes. -/
theorem fits_of_locate (hp : Path.Straight p) (h : t.locate aim p = .ok place) : Fits p := by
  obtain ⟨hcheck, -, hlong, hfollow⟩ := locate_eq_ok_iff.1 h
  exact ⟨hcheck, Nat.not_le.1 hlong, fun m hm => short_of_follow hfollow m hm (hp.isName m hm)⟩

/-! ## §3. Spots. -/

/-- The path at which the new content of a file is prepared. -/
def preparedFor (p : Text) : Text := Path.join (Path.dirName p) ".typebuild-X.tmp"

/-- There is room for the prepared file beside a file. -/
def HasRoom (p : Text) : Prop := Utf8.byteCount (preparedFor p) + lettersNotShown < pathBytesLimit

instance (p : Text) : Decidable (HasRoom p) :=
  inferInstanceAs (Decidable (Utf8.byteCount (preparedFor p) + lettersNotShown < pathBytesLimit))

theorem preparedPath_straight (t : FileTree) (hp : Path.Straight p) : t.preparedPath p = preparedFor p := by
  unfold preparedPath preparedFor
  rw [absolute_straight t hp]

/-- A path that stands for the file at a location. -/
structure Spot (t : FileTree) (p : Text) (k : Location) : Prop where
  straight : Path.Straight p
  check : checkPath p = .ok ()
  names : Path.names p ≠ []
  /-- If the system takes the path, it leads to the file. -/
  taken : Fits p → t.locate .target p = .ok (.occupied k)
  /-- The file is replaced where it lies. -/
  last : Fits p → t.lastLocation p (fun _ => .busy) = .ok k
  /-- The new content is prepared in a directory that is there. -/
  prepared : Fits p → HasRoom p → ∃ d, t.parentOf (preparedFor p) = .ok d

/-- In a tree of the same shape the same paths are spots. -/
theorem Spot.alike (h : Spot t p k) (halike : Alike t u) : Spot u p k where
  straight := h.straight
  check := h.check
  names := h.names
  taken hfits := by rw [← locate_alike halike]; exact h.taken hfits
  last hfits := by rw [← lastLocation_alike halike]; exact h.last hfits
  prepared hfits hroom := by
    rw [← parentOf_alike halike]
    exact h.prepared hfits hroom

/-- The names of a prepared path. -/
theorem names_preparedFor (hp : Path.Straight p) {init : List Text} {n : Text}
    (hnames : Path.names p = init ++ [n]) :
    Path.Straight (preparedFor p) ∧ Path.names (preparedFor p) = init ++ ([".typebuild-X.tmp"] : List Text) := by
  have htmp : Path.IsName ".typebuild-X.tmp" := by decide
  obtain ⟨hstraight, hdir⟩ := hp.dirName hnames
  obtain ⟨hprepared, hpreparedNames⟩ := hstraight.join htmp
  rw [hdir] at hpreparedNames
  exact ⟨hprepared, hpreparedNames⟩

theorem checkPath_preparedFor (hp : Path.Straight p) (hcheck : checkPath p = .ok ())
    (hne : Path.names p ≠ []) : checkPath (preparedFor p) = .ok () := by
  obtain ⟨init, last, hnames⟩ := (List.eq_nil_or_concat (Path.names p)).resolve_left hne
  rw [List.concat_eq_append] at hnames
  obtain ⟨-, hpreparedNames⟩ := names_preparedFor hp hnames
  rw [checkPath_eq_ok_iff, nameable_iff_names, hnames] at hcheck
  rw [checkPath_eq_ok_iff, nameable_iff_names, hpreparedNames]
  intro m hm
  rcases List.mem_append.1 hm with hm | hm
  · exact hcheck m (List.mem_append_left _ hm)
  · rw [List.mem_singleton.1 hm]
    exact checkPath_eq_ok_iff.1 rfl

/-- Where a path is followed, the names before its last are followed to a directory, and so they are for
the prepared path. -/
theorem exists_parentOf_preparedFor {init : List Text} {n : Text} (hp : Path.Straight p)
    (hnames : Path.names p = init ++ [n]) (hplace : t.locate aim p = .ok place) (hroom : HasRoom p) :
    ∃ d, t.parentOf (preparedFor p) = .ok d := by
  obtain ⟨-, -, -, hfollow⟩ := locate_eq_ok_iff.1 hplace
  rw [if_pos hp.isAbsolute, hnames] at hfollow
  obtain ⟨d, links, -, hd, -⟩ := exists_of_follow_concat hfollow
  obtain ⟨hprepared, hpreparedNames⟩ := names_preparedFor hp hnames
  have hshort : ¬ pathBytesLimit ≤ Utf8.byteCount (preparedFor p) :=
    Nat.not_le.2 ((Nat.le_add_right _ _).trans_lt hroom)
  refine ⟨d, ?_⟩
  unfold parentOf
  rw [if_neg hprepared.ne_nil, if_neg hshort, if_pos hprepared.isAbsolute, hpreparedNames,
    List.dropLast_concat, hd]

/-- **A path whose names lead to a file is a spot**, if the system follows it there when it takes it. -/
theorem Spot.of_leads {init : List Text} {n : Text} (hp : Path.Straight p)
    (hcheck : checkPath p = .ok ()) (hnames : Path.names p = init ++ [n])
    (hleads : Leads t [] init d)
    (hfile : t.entryAt? (d ++ [Utf8.nameForm n]) = some (.file content))
    (htaken : Fits p → ∃ place, t.locate .target p = .ok place) :
    Spot t p (d ++ [Utf8.nameForm n]) := by
  have hn : Path.IsName n := hp.isName n (by rw [hnames]; simp)
  have hslash : Text.endsWith p "/" = false := hp.not_slash (by rw [hnames]; simp)
  rw [← startOf_straight t hp] at hleads
  refine ⟨hp, hcheck, by rw [hnames]; simp, fun hfits => ?_, fun hfits => ?_, fun hfits hroom => ?_⟩
  · obtain ⟨place, hplace⟩ := htaken hfits
    rcases place_of_locate hnames hn hslash hleads hplace with ⟨hnone, -⟩ | ⟨-, rfl⟩ | ⟨-, path, hlink⟩
    · rw [hfile] at hnone
      cases hnone
    · exact hplace
    · rw [hfile] at hlink
      cases hlink
  · obtain ⟨place, hplace⟩ := htaken hfits
    obtain ⟨d', hleads', hlast⟩ := lastLocation_of_locate hnames hn hslash (fun _ => .busy) hplace
    rw [hlast, hleads'.det hleads]
  · obtain ⟨place, hplace⟩ := htaken hfits
    exact exists_parentOf_preparedFor hp hnames hplace hroom

/-- In a tree without links every straight path to a file is a spot. -/
theorem Spot.of_straight (hfree : LinkFree t) (hp : Path.Straight p) (hcheck : checkPath p = .ok ())
    (hfile : t.entryAt? (placeOf p) = some (.file content)) : Spot t p (placeOf p) := by
  have hne : placeOf p ≠ [] := by
    intro hnil
    rw [hnil] at hfile
    cases hfile
  obtain ⟨d, n, hdn⟩ := (List.eq_nil_or_concat (placeOf p)).resolve_left hne
  rw [List.concat_eq_append] at hdn
  obtain ⟨init, last, hnames, rfl, rfl⟩ := names_of_placeOf hdn
  have hdir : t.entryAt? (init.map Utf8.nameForm) = some .directory :=
    isDirectory_of_append (by rw [← hdn, hfile]; simp)
  have hleads : Leads t [] init ([] ++ init.map Utf8.nameForm) :=
    leads_map (fun m hm => hp.isName m (by rw [hnames]; exact List.mem_append_left _ hm)) hdir
  rw [List.nil_append] at hleads
  rw [hdn] at hfile ⊢
  refine Spot.of_leads hp hcheck hnames hleads hfile fun hfits => ⟨_, locate_of_fits hfree hp hfits ?_⟩
  rw [hdn, hfile]
  simp

/-- **Every path to a file below an open directory is a spot**, whatever links led to the directory. -/
theorem Spot.of_below (hstart : Path.Straight start) (hopen : t.openDirectory start = .ok l)
    (hne : ns ≠ []) (hns : ∀ n ∈ ns, Path.IsName n ∧ Utf8.nameForm n = n ∧ Nameable n)
    (hfile : t.entryAt? (l ++ ns) = some (.file content)) : Spot t (Path.below start ns) (l ++ ns) := by
  obtain ⟨init, n, rfl⟩ := (List.eq_nil_or_concat ns).resolve_left hne
  rw [List.concat_eq_append] at hne hns hfile ⊢
  obtain ⟨hstraight, hnames⟩ := below_straight hstart fun n hn => (hns n hn).1
  obtain ⟨hopened, hd⟩ := openDirectory_eq_ok hopen
  have hdir : t.entryAt? (l ++ init) = some .directory := by
    rw [← List.append_assoc] at hfile
    exact isDirectory_of_append (by rw [hfile]; simp)
  obtain ⟨hcheckStart, -, -, hfollow⟩ := locate_eq_ok_iff.1 hopened
  have hcheck : checkPath (Path.below start (init ++ [n])) = .ok () := by
    rw [checkPath_eq_ok_iff, nameable_iff_names] at hcheckStart ⊢
    rw [hnames]
    intro m hm
    rcases List.mem_append.1 hm with hm | hm
    · exact hcheckStart m hm
    · exact (hns m hm).2.2
  have hleads : Leads t [] (Path.names start ++ init) (l ++ init) := by
    have hstartLeads := leads_of_locate hopened hd
    rw [startOf_straight t hstart] at hstartLeads
    exact hstartLeads.append
      (leads_append (fun m hm => ⟨(hns m (List.mem_append_left _ hm)).1,
        (hns m (List.mem_append_left _ hm)).2.1⟩) hdir)
  have hform : Utf8.nameForm n = n := (hns n (by simp)).2.1
  have hforms : (init ++ [n]).map Utf8.nameForm = init ++ [n] := by
    rw [List.map_congr_left fun m hm => (hns m hm).2.1, List.map_id']
  have hspot := Spot.of_leads hstraight hcheck (by rw [hnames, List.append_assoc]) hleads
    (by rw [hform, List.append_assoc]; exact hfile) ?_
  · rwa [hform, List.append_assoc] at hspot
  -- behind the names of the directory the others are followed from there, through no link
  · intro hfits
    rw [if_pos hstart.isAbsolute] at hfollow
    have hslash : Text.endsWith (Path.below start (init ++ [n])) "/" = false :=
      hstraight.not_slash (by rw [hnames]; simp)
    obtain ⟨links', hbehind⟩ := (enters_of_follow hfollow hd).follow_append
    refine ⟨.occupied (l ++ (init ++ [n])),
      locate_eq_ok_iff.2 ⟨hcheck, hstraight.ne_nil, Nat.not_le.2 hfits.short, ?_⟩⟩
    rw [if_pos hstraight.isAbsolute, hnames, hbehind _ _ _ hne]
    have hpresent := follow_of_present (t := t) .target
      (Text.endsWith (Path.below start (init ++ [n])) "/") links' l (fun m hm => (hns m hm).1)
      (fun m hm => hfits.names m (by rw [hnames]; exact List.mem_append_right _ hm))
      (by rw [hforms, hfile]; simp) (by rw [hforms, hfile]; simp) (.inr (.inl hslash))
    rwa [hforms] at hpresent

/-! ## §4. Replacing at a spot. -/

/-- **Replacing a file at a spot**: refused for the length of the prepared path, or for a text that
cannot be written; else the file has the bytes of the text. -/
theorem replaceText_spot (h : Spot t p k) (hfits : Fits p)
    (hfile : t.entryAt? k = some (.file content)) (text : Text) :
    t.replaceText p text
      = if HasRoom p then
          match Utf8.encode text with
          | .error fault => .error (.unencodable fault)
          | .ok bytes => .ok ((t.remove k).put k (.file bytes))
        else .error (.system .nameTooLong (preparedFor p) none) := by
  unfold replaceText onPath
  rw [preparedPath_straight t h.straight]
  dsimp only
  rw [checkPath_preparedFor h.straight h.check h.names]
  by_cases hroom : HasRoom p
  · obtain ⟨d, hparent⟩ := h.prepared hfits hroom
    have hprepare : t.parentOfPrepared (preparedFor p) = .ok d := by
      rw [← hparent]
      exact if_neg (Nat.not_le.2 hroom)
    rw [if_pos hroom, hprepare]
    cases Utf8.encode text with
    | error fault => rfl
    | ok bytes =>
      unfold onMove placeFile
      rw [h.check, h.last hfits]
      simp only [Except.map, bind, Except.bind, h.straight.not_slash h.names, isDirectory, hfile]
      rfl
  · have hprepare : t.parentOfPrepared (preparedFor p) = .error .nameTooLong :=
      if_pos (Nat.not_lt.1 hroom)
    rw [if_neg hroom, hprepare]
    rfl

/-- **Where a file was read one can be stored**, if there is room beside it; it takes the place of that
file, or of the link that led to it. -/
theorem storable_iff_hasRoom {old : Bytes} (hp : Path.Straight p) (hread : t.readBytes p = .ok old) :
    t.Storable p ↔ HasRoom p := by
  constructor
  · rintro ⟨text, u, h⟩
    obtain ⟨⟨-, d, hprepare⟩, -⟩ := replaceText_eq_ok_iff.1 h
    unfold parentOfPrepared at hprepare
    split at hprepare
    · cases hprepare
    · rename_i hroom
      rw [preparedPath_straight t hp] at hroom
      exact Nat.not_le.1 hroom
  · intro hroom
    -- every check of the replacement but the one on length was made when the file was read
    obtain ⟨m, hlocate, hfile⟩ := exists_of_readBytes hread
    have hcheck := (locate_eq_ok_iff.1 hlocate).1
    have hne : Path.names p ≠ [] := by
      intro hnil
      have hfollow := (locate_eq_ok_iff.1 hlocate).2.2.2
      rw [if_pos hp.isAbsolute, hnil, follow_nil] at hfollow
      cases hfollow
      cases hfile
    obtain ⟨init, n, hnames⟩ := (List.eq_nil_or_concat (Path.names p)).resolve_left hne
    rw [List.concat_eq_append] at hnames
    have hn : Path.IsName n := hp.isName n (by rw [hnames]; simp)
    have hslash := hp.not_slash hne
    obtain ⟨d, hleads, hlast⟩ := lastLocation_of_locate hnames hn hslash (fun _ => .busy) hlocate
    have hleaf : t.isDirectory (d ++ [Utf8.nameForm n]) = false := by
      obtain ⟨-, hno, -⟩ := (takesFile_of_readBytes hread).last hnames hn hleads
      unfold isDirectory
      rw [decide_eq_false_iff_not]
      exact hno
    obtain ⟨parent, hparent⟩ := exists_parentOf_preparedFor hp hnames hlocate hroom
    have hprepare : t.parentOfPrepared (preparedFor p) = .ok parent := by
      rw [← hparent]
      exact if_neg (Nat.not_le.2 hroom)
    refine ⟨[], _, replaceText_eq_ok_iff.2 ⟨⟨?_, parent, ?_⟩, hcheck, hslash, _, hlast, hleaf, [], rfl, rfl⟩⟩
    · rw [preparedPath_straight t hp]
      exact checkPath_preparedFor hp hcheck hne
    · rw [preparedPath_straight t hp]
      exact hprepare

end FileTree

end ModuleBuild
