/-
  ModuleBuild.Proofs.FileTree.Ended
  ─────────────────────────────────
  **NORMAL PATHS THAT END IN A NAME, WITHOUT LINKS.**

  In a tree without links such a path leads to where its names end, and to
  nothing else, also if it goes up from the working directory first; that
  directory itself may be gone.  What the system says of the path then is
  what lies there, if it takes the path at all.

  Main results:
    * `Ended.locate_cases`, `Ended.locate_of_present`, `Ended.locate_of_vacant` — where such a path leads;
    * `Ended.find?_iff`, `Ended.readBytes_iff`, `Ended.openDirectory_iff` — what is found there;
    * `Ended.removePath` — what lies there is removed, and nothing else.
-/
import ModuleBuild.Proofs.FileTree.ByName
import ModuleBuild.Proofs.FileTree.Outcome
import ModuleBuild.Proofs.FileTree.Spot

namespace ModuleBuild

namespace Path

/-! ## §1. Paths that end in a name. -/

variable {p n : Text}

/-- A path in normal form that ends in a name. -/
def Ended (p : Text) : Prop :=
  ∃ root init n, p = written root (init ++ [n]) ∧ IsRoot root ∧ Tidy (root ≠ []) (init ++ [n]) ∧ IsName n

theorem ended_written {root : Text} {init : List Text} (hroot : IsRoot root)
    (htidy : Tidy (root ≠ []) (init ++ [n])) (hn : IsName n) : Ended (written root (init ++ [n])) :=
  ⟨root, init, n, rfl, hroot, htidy, hn⟩

theorem Straight.ended {init : List Text} (h : Straight p) (hnames : names p = init ++ [n]) : Ended p := by
  obtain ⟨root, hroot, -, hp⟩ := h.written
  have hall := h.isName
  rw [hnames] at hp hall
  exact ⟨root, init, n, hp, hroot, tidy_of_isName hall, hall n (by simp)⟩

/-- The names of such a path lead up, then down. -/
theorem Ended.exists_names (h : Ended p) :
    ∃ init n, names p = init ++ [n] ∧ Tidy false init ∧ IsName n ∧ Text.endsWith p "/" = false := by
  obtain ⟨root, init, n, rfl, hroot, htidy, hn⟩ := h
  obtain ⟨ups, ms, hinit, hms, -⟩ := htidy.concat hn
  exact ⟨init, n, names_written hroot htidy.isPart, ⟨ups, ms, hinit, hms, nofun⟩, hn,
    not_endsWith_written hn.1⟩

theorem Ended.ne_nil (h : Ended p) : p ≠ [] := by
  obtain ⟨init, n, hnames, -⟩ := h.exists_names
  rintro rfl
  exact absurd hnames (by simp [names, Text.split])

theorem Ended.join (h : Ended p) (hn : IsName n) : Ended (Path.join p n) := by
  obtain ⟨root, init, m, rfl, hroot, htidy, hm⟩ := h
  rw [join_written hroot htidy.isPart hn.1]
  refine ended_written hroot ?_ hn
  obtain ⟨ups, ms, rfl, hms, hrooted⟩ := htidy.concat hm
  refine ⟨ups, ms ++ [m] ++ [n], by simp, ?_, hrooted⟩
  intro x hx
  simp only [List.mem_append, List.mem_singleton] at hx
  rcases hx with (hx | rfl) | rfl
  · exact hms x hx
  · exact hm
  · exact hn

end Path

namespace FileTree

variable {t t' : FileTree} {aim : Aim} {slash : Bool} {links : Nat} {dir d : Location} {p n : Text}
  {ns : List Text} {place : Place} {rooted : Bool}

/-! ## §2. Names that lead up, then down. -/

theorem follow_ups (ups : Nat) :
    ∀ dir : Location, follow t aim slash links dir (List.replicate ups Path.up ++ ns)
      = follow t aim slash links (dir.take (dir.length - ups)) ns := by
  induction ups with
  | zero =>
    intro dir
    rw [Nat.sub_zero, List.take_length]
    rfl
  | succ ups ih =>
    intro dir
    rw [List.replicate_succ, List.cons_append, follow_up, ih, List.dropLast_eq_take, List.take_take,
      List.length_take]
    congr 2
    omega

/-- Where tidy names end. -/
theorem foldl_stepFrom_tidy {ups : Nat} {ms : List Text} (hms : ∀ m ∈ ms, Path.IsName m) (dir : Location) :
    (List.replicate ups Path.up ++ ms).foldl stepFrom dir
      = dir.take (dir.length - ups) ++ ms.map Utf8.nameForm := by
  rw [List.foldl_append, foldl_stepFrom_ups, foldl_stepFrom_of_isName _ hms]

/-- Tidy names lead nowhere but where they end. -/
theorem Leads.eq_foldl (h : Leads t dir ns d) (hfree : LinkFree t) (hns : Path.Tidy rooted ns) :
    d = ns.foldl stepFrom dir := by
  obtain ⟨ups, ms, rfl, hms, -⟩ := hns
  rw [foldl_stepFrom_tidy hms]
  exact (leads_ups.1 h).eq_append hms fun k path _ _ => hfree.ne_link _ _

theorem short_of_mem_tidy (hns : Path.Tidy rooted ns)
    (hshort : ∀ m ∈ ns, Path.IsName m → Utf8.byteCount m ≤ maxNameBytes) :
    ∀ m ∈ ns, Utf8.byteCount m ≤ maxNameBytes := by
  obtain ⟨ups, ms, rfl, hms, -⟩ := hns
  intro m hm
  rcases List.mem_append.1 hm with hup | hname
  · rw [(List.mem_replicate.1 hup).2]
    decide
  · exact hshort m hm (hms m hname)

theorem endOf_eq (hdir : t'.workingDir = t.workingDir) (p : Text) : t'.endOf p = t.endOf p := by
  unfold endOf
  rw [startOf_eq hdir]

theorem endOf_join_name (hn : Path.IsName n) (p : Text) :
    t.endOf (Path.join p n) = t.endOf p ++ [Utf8.nameForm n] := by
  rw [endOf_join (Path.isAbsolute_of_isPart hn.1), Path.names_of_isPart hn.1]
  exact stepFrom_named hn.2.1 hn.2.2

theorem endOf_straight (hp : Path.Straight p) : t.endOf p = placeOf p := by
  unfold endOf
  rw [startOf_straight t hp, foldl_stepFrom_of_isName _ hp.isName]
  rfl

/-- The absolute form of a path is where the path ends. -/
theorem placeOf_absolute (hproper : Proper t) (p : Text) : placeOf (t.absolute p) = t.endOf p := by
  obtain ⟨q, hq, hend⟩ := exists_absolute_normalize hproper p
  rw [← endOf_straight (straight_absolute t p), hq, endOf_normalize, hend]

end FileTree

namespace Path

open FileTree

variable {t : FileTree} {aim : Aim} {p : Text} {place : Place}

/-! ## §3. Where the path leads. -/

section Ended

variable (hp : Ended p)

include hp

/-- The last name of the path, and where it is looked up. -/
theorem Ended.exists_end (t : FileTree) :
    ∃ init n, Path.names p = init ++ [n] ∧ Path.Tidy false init ∧ Path.IsName n ∧
      t.endOf p = init.foldl stepFrom (t.startOf p) ++ [Utf8.nameForm n] := by
  obtain ⟨init, n, hnames, htidy, hn, -⟩ := hp.exists_names
  refine ⟨init, n, hnames, htidy, hn, ?_⟩
  unfold endOf
  rw [hnames, List.foldl_append]
  exact stepFrom_named hn.2.1 hn.2.2

/-- The system takes the path, and the last name is looked up in a directory. -/
theorem Ended.follow_last (hfits : Fits p) (hdir : t.entryAt? (t.endOf p).dropLast = some .directory) :
    ∃ init n links', Path.names p = init ++ [n] ∧ Path.IsName n ∧
      (t.endOf p).dropLast ++ [Utf8.nameForm n] = t.endOf p ∧
      (∀ slash, follow t .target slash maxLinks (t.startOf p) init
        = .ok (.occupied (t.endOf p).dropLast)) ∧
      ∀ aim slash, follow t aim slash maxLinks (t.startOf p) (init ++ [n])
        = follow t aim slash links' (t.endOf p).dropLast [n] := by
  obtain ⟨init, n, hnames, htidy, hn, hend⟩ := hp.exists_end t
  rw [hend, List.dropLast_concat] at hdir ⊢
  obtain ⟨ups, ms, rfl, hms, -⟩ := htidy
  rw [foldl_stepFrom_tidy hms] at hdir ⊢
  have hshort : ∀ m ∈ ms, Utf8.byteCount m ≤ maxNameBytes := fun m hm =>
    hfits.names m (by rw [hnames]; simp [hm])
  have hfollow : ∀ slash, follow t .target slash maxLinks (t.startOf p)
      (List.replicate ups Path.up ++ ms)
        = .ok (.occupied ((t.startOf p).take ((t.startOf p).length - ups) ++ ms.map Utf8.nameForm)) := by
    intro slash
    rw [follow_ups]
    exact follow_of_present .target slash maxLinks _ hms hshort (ne_none_of_eq_some hdir)
      (by rw [hdir]; simp) (.inr (.inr ⟨rfl, hdir⟩))
  obtain ⟨links', hlinks⟩ := (enters_of_follow (hfollow true) hdir).follow_append
  exact ⟨_, n, links', hnames, hn, rfl, hfollow, fun aim slash => hlinks aim slash [n] (by simp)⟩

variable (hfree : LinkFree t)

include hfree

/-- **Where the path leads**: to where it ends, or to the vacant name there. -/
theorem Ended.locate_cases (h : t.locate aim p = .ok place) :
    Fits p ∧ ((t.entryAt? (t.endOf p) ≠ none ∧ place = .occupied (t.endOf p))
      ∨ ∃ d n, t.endOf p = d ++ [n] ∧ t.entryAt? (t.endOf p) = none ∧ place = .vacant d n) := by
  obtain ⟨init, n, hnames, htidy, hn, hslash⟩ := hp.exists_names
  obtain ⟨d, hleads, -⟩ := lastLocation_of_locate hnames hn hslash (fun _ => .busy) h
  have hend : t.endOf p = d ++ [Utf8.nameForm n] := by
    rw [hleads.eq_foldl hfree htidy, endOf, hnames, List.foldl_append]
    exact stepFrom_named hn.2.1 hn.2.2
  obtain ⟨hcheck, -, hlong, hfollow⟩ := locate_eq_ok_iff.1 h
  obtain ⟨root, init', n', rfl, hroot, htidy', -⟩ := hp
  have hshort := short_of_mem_tidy htidy' (by
    rw [← Path.names_written hroot htidy'.isPart]
    exact short_of_follow hfollow)
  rw [← Path.names_written hroot htidy'.isPart] at hshort
  refine ⟨⟨hcheck, Nat.not_le.1 hlong, hshort⟩, ?_⟩
  rw [hend]
  rcases place_of_locate hnames hn hslash hleads h with ⟨hnone, rfl⟩ | ⟨hsome, rfl⟩ | ⟨-, path, hpath⟩
  · exact .inr ⟨d, Utf8.nameForm n, rfl, hnone, rfl⟩
  · exact .inl ⟨hsome, rfl⟩
  · exact absurd hpath (hfree.ne_link _ _)

omit hfree in
/-- The path leads to a vacant name of a directory. -/
theorem Ended.locate_of_vacant (hfits : Fits p)
    (hdir : t.entryAt? (t.endOf p).dropLast = some .directory) (hnone : t.entryAt? (t.endOf p) = none) :
    ∃ n, (t.endOf p).dropLast ++ [n] = t.endOf p ∧
      ∀ aim, t.locate aim p = .ok (.vacant (t.endOf p).dropLast n) := by
  obtain ⟨init, n, links', hnames, hn, hend, -, hlast⟩ := hp.follow_last hfits hdir
  obtain ⟨-, -, -, -, -, hslash⟩ := hp.exists_names
  refine ⟨Utf8.nameForm n, hend, fun aim => ?_⟩
  refine locate_eq_ok_iff.2 ⟨hfits.check, hp.ne_nil, Nat.not_le.2 hfits.short, ?_⟩
  show follow t aim (Text.endsWith p "/") maxLinks (t.startOf p) (Path.names p) = _
  rw [hnames, hlast, hslash, follow_named hn.2.1 hn.2.2, if_neg (by simp),
    if_neg (Nat.not_lt.2 (hfits.names n (by rw [hnames]; simp))), hend, hnone]
  rfl

/-- The path leads to what lies where it ends. -/
theorem Ended.locate_of_present (hfits : Fits p) (hsome : t.entryAt? (t.endOf p) ≠ none) (aim : Aim) :
    t.locate aim p = .ok (.occupied (t.endOf p)) := by
  have hdir : t.entryAt? (t.endOf p).dropLast = some .directory := by
    obtain ⟨init, n, -, -, -, hend⟩ := hp.exists_end t
    rw [hend] at hsome ⊢
    rw [List.dropLast_concat]
    exact isDirectory_of_append hsome
  obtain ⟨init, n, links', hnames, hn, hend, -, hlast⟩ := hp.follow_last hfits hdir
  obtain ⟨-, -, -, -, -, hslash⟩ := hp.exists_names
  refine locate_eq_ok_iff.2 ⟨hfits.check, hp.ne_nil, Nat.not_le.2 hfits.short, ?_⟩
  show follow t aim (Text.endsWith p "/") maxLinks (t.startOf p) (Path.names p) = _
  have hshort : ∀ m ∈ [n], Utf8.byteCount m ≤ maxNameBytes := fun m hm =>
    hfits.names m (by rw [hnames]; simp [List.mem_singleton.1 hm])
  have hone : ∀ m ∈ [n], Path.IsName m := fun m hm => by
    rw [List.mem_singleton.1 hm]
    exact hn
  have hpresent := follow_of_present aim false links' (t.endOf p).dropLast hone hshort
    (by rw [List.map_singleton, hend]; exact hsome) (fun path => hfree.ne_link _ _) (.inr (.inl rfl))
  rw [hnames, hlast, hslash, hpresent, List.map_singleton, hend]

omit hfree in
/-- The last name of the path is looked up where it ends. -/
theorem Ended.lastLocation_of_fits (dots : Ending → SystemFault) (hfits : Fits p)
    (hdir : t.entryAt? (t.endOf p).dropLast = some .directory) :
    t.lastLocation p dots = .ok (t.endOf p) := by
  obtain ⟨init, n, links', hnames, hn, hend, hinit, -⟩ := hp.follow_last hfits hdir
  have hparent : t.parentOf p = .ok (t.endOf p).dropLast := by
    unfold parentOf
    rw [if_neg hp.ne_nil, if_neg (Nat.not_le.2 hfits.short), hnames, List.dropLast_concat]
    rw [show follow t .target true maxLinks (if Path.isAbsolute p then [] else t.workingDir) init
      = .ok (.occupied (t.endOf p).dropLast) from hinit true]
  have hending : ending p = .named n := by
    unfold ending
    rw [hnames, List.getLast?_concat]
    simp [hn.2.1, hn.2.2]
  unfold lastLocation
  rw [hparent, hending]
  dsimp only
  rw [if_neg (Nat.not_lt.2 (hfits.names n (by rw [hnames]; simp))), hend]

/-! ## §4. What is found there. -/

/-- What a path is found to name, if its last name is looked up in some way. -/
theorem Ended.found_iff {e : Entry} (aim : Aim) :
    (match t.locate aim p with
      | .ok (.occupied l) => t.entryAt? l
      | _ => none) = some e ↔ Fits p ∧ t.entryAt? (t.endOf p) = some e := by
  constructor
  · intro h
    split at h
    · rename_i l hl
      obtain ⟨hfits, hplace⟩ := hp.locate_cases hfree hl
      rcases hplace with ⟨-, hplace⟩ | ⟨d, n, -, -, hplace⟩
      · cases hplace
        exact ⟨hfits, h⟩
      · cases hplace
    · cases h
  · rintro ⟨hfits, he⟩
    rw [hp.locate_of_present hfree hfits (ne_none_of_eq_some he) aim]
    exact he

theorem Ended.find?_iff {e : Entry} :
    t.find? p = some e ↔ Fits p ∧ t.entryAt? (t.endOf p) = some e :=
  hp.found_iff hfree .target

theorem Ended.findLink?_iff {e : Entry} :
    t.findLink? p = some e ↔ Fits p ∧ t.entryAt? (t.endOf p) = some e :=
  hp.found_iff hfree .name

theorem Ended.namesDirectory_iff :
    t.namesDirectory p = true ↔ Fits p ∧ t.entryAt? (t.endOf p) = some .directory := by
  unfold namesDirectory
  rw [decide_eq_true_eq]
  exact hp.find?_iff hfree

theorem Ended.pathExists_iff :
    t.pathExists p = true ↔ Fits p ∧ t.entryAt? (t.endOf p) ≠ none := by
  unfold pathExists
  rw [Option.isSome_iff_exists]
  simp only [hp.find?_iff hfree, exists_and_left, Option.ne_none_iff_exists']

theorem Ended.pathOccupied_iff :
    t.pathOccupied p = true ↔ Fits p ∧ t.entryAt? (t.endOf p) ≠ none := by
  unfold pathOccupied
  rw [Option.isSome_iff_exists]
  simp only [hp.findLink?_iff hfree, exists_and_left, Option.ne_none_iff_exists']

theorem Ended.namesLink_eq_false : t.namesLink p = false := by
  unfold namesLink
  cases hfind : t.findLink? p with
  | none => rfl
  | some e =>
    cases e with
    | file content => rfl
    | directory => rfl
    | link path => exact absurd ((hp.findLink?_iff hfree).1 hfind).2 (hfree.ne_link _ _)

theorem Ended.readBytes_iff {content : Bytes} :
    t.readBytes p = .ok content ↔ Fits p ∧ t.entryAt? (t.endOf p) = some (.file content) := by
  constructor
  · intro h
    obtain ⟨l, hl, he⟩ := exists_of_readBytes h
    refine (hp.find?_iff hfree).1 ?_
    unfold find?
    rw [hl]
    exact he
  · rintro ⟨hfits, he⟩
    exact readBytes_of_locate (hp.locate_of_present hfree hfits (ne_none_of_eq_some he) .target) he

theorem Ended.openDirectory_iff {l : Location} :
    t.openDirectory p = .ok l
      ↔ Fits p ∧ l = t.endOf p ∧ t.entryAt? (t.endOf p) = some .directory := by
  constructor
  · intro h
    obtain ⟨hl, hdir⟩ := openDirectory_eq_ok h
    obtain ⟨hfits, hplace⟩ := hp.locate_cases hfree hl
    rcases hplace with ⟨-, hplace⟩ | ⟨d, n, -, -, hplace⟩
    · cases hplace
      exact ⟨hfits, rfl, hdir⟩
    · cases hplace
  · rintro ⟨hfits, rfl, hdir⟩
    exact openDirectory_of_locate (hp.locate_of_present hfree hfits (ne_none_of_eq_some hdir) .target) hdir

/-! ## §5. Removing it. -/

/-- A directory is emptied, and then removed. -/
theorem Ended.removePath_directory (hfits : Fits p) (hdir : t.entryAt? (t.endOf p) = some .directory) :
    ∃ t', (Edit.removePath p).runOn t = (.ok (), t') ∧ t'.workingDir = t.workingDir ∧
      ∀ k, t'.entryAt? k = if t.endOf p <+: k then none else t.entryAt? k := by
  obtain ⟨init, n, -, -, -, hend⟩ := hp.exists_end t
  generalize init.foldl stepFrom (t.startOf p) = d at hend
  have hd : t.entryAt? d = some .directory :=
    isDirectory_of_append (by rw [← hend]; exact ne_none_of_eq_some hdir)
  have hnamed : (t.namesDirectory p && !t.namesLink p) = true := by
    rw [hp.namesLink_eq_false hfree, (hp.namesDirectory_iff hfree).2 ⟨hfits, hdir⟩]
    rfl
  have hclear := clearDirectory_of_locate
    (hp.locate_of_present hfree hfits (ne_none_of_eq_some hdir) .target) hdir
  have hendu : (t.put (t.endOf p) .emptyDirectory).endOf p = t.endOf p :=
    endOf_eq (workingDir_put ..) p
  rw [hend] at hdir hclear hendu ⊢
  have hemptied : ∀ k, (t.put (d ++ [Utf8.nameForm n]) .emptyDirectory).entryAt? k
      = if k = d ++ [Utf8.nameForm n] then some .directory
        else if d ++ [Utf8.nameForm n] <+: k then none else t.entryAt? k :=
    fun k => entryAt?_put_leaf hd rfl k
  have hd' : (t.put (d ++ [Utf8.nameForm n]) .emptyDirectory).entryAt? d = some .directory := by
    rw [hemptied, if_neg (by simp), if_neg (not_prefix_of_concat d _)]
    exact hd
  -- the directory is empty by then, so the system removes it
  have hremoved : (t.put (d ++ [Utf8.nameForm n]) .emptyDirectory).removeDirectory p
      = .ok ((t.put (d ++ [Utf8.nameForm n]) .emptyDirectory).remove (d ++ [Utf8.nameForm n])) := by
    refine removeDirectory_of_lastLocation hfits.check ?_ ?_ ?_
    · rw [hp.lastLocation_of_fits _ hfits (by rw [hendu, List.dropLast_concat]; exact hd'), hendu]
    · rw [hemptied, if_pos rfl]
    · intro k hk hne
      rw [hemptied, if_neg hne, if_pos hk]
  unfold Edit.removePath
  rw [Edit.runOn_bind, Edit.runOn_get]
  dsimp only
  rw [if_pos hnamed, Edit.runOn_bind, Edit.run_change, hclear]
  dsimp only
  rw [Edit.run_change, hremoved]
  refine ⟨_, rfl, by rw [workingDir_remove, workingDir_put], fun k => ?_⟩
  rw [entryAt?_remove_concat]
  by_cases hk : d ++ [Utf8.nameForm n] <+: k
  · rw [if_pos hk, if_pos hk]
  · have hne : k ≠ d ++ [Utf8.nameForm n] := fun e => hk (e ▸ List.prefix_rfl)
    rw [if_neg hk, if_neg hk, hemptied, if_neg hne, if_neg hk]

/-- **What lies where the path ends is removed**, and nothing else. -/
theorem Ended.removePath (hocc : t.pathOccupied p = true) :
    ∃ t', (Edit.removePath p).runOn t = (.ok (), t') ∧ t'.workingDir = t.workingDir ∧
      ∀ k, t'.entryAt? k = if t.endOf p <+: k then none else t.entryAt? k := by
  obtain ⟨hfits, hsome⟩ := (hp.pathOccupied_iff hfree).1 hocc
  by_cases hdir : t.entryAt? (t.endOf p) = some .directory
  · exact hp.removePath_directory hfree hfits hdir
  · obtain ⟨init, n, -, -, -, hend⟩ := hp.exists_end t
    obtain ⟨-, -, -, -, -, hslash⟩ := hp.exists_names
    have hparent : t.entryAt? (t.endOf p).dropLast = some .directory := by
      rw [hend] at hsome ⊢
      rw [List.dropLast_concat]
      exact isDirectory_of_append hsome
    have hnamed : t.namesDirectory p = false := by
      rw [Bool.eq_false_iff]
      exact fun hyes => hdir ((hp.namesDirectory_iff hfree).1 hyes).2
    obtain ⟨e, he⟩ := Option.ne_none_iff_exists'.1 hsome
    have hremoved := removeFile_of_lastLocation hfits.check hslash
      (hp.lastLocation_of_fits _ hfits hparent) he (fun h => hdir (by rw [he, h]))
    unfold Edit.removePath
    rw [Edit.runOn_bind, Edit.runOn_get]
    dsimp only
    rw [hnamed, Bool.false_and, if_neg (by simp), Edit.run_change, hremoved, hend]
    exact ⟨_, rfl, workingDir_remove .., fun k => entryAt?_remove_concat t _ _ k⟩

end Ended

end Path

end ModuleBuild
