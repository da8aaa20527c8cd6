/-
  ModuleBuild.Proofs.FileTree.Straight
  ────────────────────────────────────
  **STRAIGHT PATHS IN TREES WITHOUT LINKS.**

  A straight path starts at the root and has no dots.  In a tree without
  links it names the place that its names spell, and nothing else: the system
  refuses it for its text alone, or it finds there what the tree has there.

  So what is found at a straight path depends on the entries on the way to
  its place, and two trees that agree on those cannot be told apart by it.

  Main results:
    * `locate_of_fits`, `locate_cases` — where a straight path leads;
    * `find?_of_fits`, `find?_of_not_fits` — what is found at one;
    * `lastLocation_of_fits`, `lastLocation_cases` — where an operation on one takes place;
    * `locate_congr`, `lastLocation_congr` — trees that agree on the way agree on the result.
-/
import ModuleBuild.Proofs.FileTree.Naming
import ModuleBuild.Proofs.FileTree.Shape
import ModuleBuild.Proofs.Path.Normal
import ModuleBuild.Proofs.Path.Pieces

namespace ModuleBuild

namespace Path

/-! ## §1. Straight paths. -/

/-- A path from the root without dots. -/
structure Straight (p : Text) : Prop where
  written : ∃ root, IsRoot root ∧ root ≠ [] ∧ p = written root (names p)
  isName : ∀ m ∈ names p, IsName m

variable {p root : Text} {ns : List Text}

theorem straight_written (hroot : IsRoot root) (hne : root ≠ []) (hns : ∀ m ∈ ns, IsName m) :
    Straight (Path.written root ns) := by
  have hnames := names_written hroot fun m hm => (hns m hm).1
  refine ⟨⟨root, hroot, hne, by rw [hnames]⟩, ?_⟩
  rw [hnames]
  exact hns

theorem straight_resolveAgainst {base : Text} (hbase : isAbsolute base = true) (p : Text) :
    Straight (resolveAgainst base p) := by
  obtain ⟨root, ns, hp, hroot, hne, hns⟩ := exists_resolved_written hbase p
  rw [hp]
  exact straight_written hroot hne hns

theorem Straight.isAbsolute (h : Straight p) : isAbsolute p = true := by
  obtain ⟨root, hroot, hne, hp⟩ := h.written
  rw [hp, isAbsolute_written hroot fun m hm => (h.isName m hm).1]
  exact decide_eq_true hne

theorem Straight.ne_nil (h : Straight p) : p ≠ [] := by
  rintro rfl
  have habs := h.isAbsolute
  cases habs

theorem Straight.not_slash (h : Straight p) (hne : names p ≠ []) : Text.endsWith p "/" = false := by
  obtain ⟨root, -, -, hp⟩ := h.written
  obtain ⟨init, n, hsplit⟩ := List.eq_nil_or_concat (names p) |>.resolve_left hne
  rw [List.concat_eq_append] at hsplit
  rw [hp, hsplit]
  exact not_endsWith_written (h.isName n (by rw [hsplit]; simp)).1

theorem Straight.normalize (h : Straight p) : Path.normalize p = p := by
  obtain ⟨root, hroot, hne, hp⟩ := h.written
  rw [hp]
  exact normalize_written hroot (tidy_of_isName h.isName) (.inl hne)

theorem Straight.eq_written (h : Straight p) : p = Path.written (rootOf p) (names p) := by
  obtain ⟨root, hroot, -, hp⟩ := h.written
  have hrootOf : rootOf p = root := by
    rw [hp]
    exact rootOf_written hroot fun m hm => (h.isName m hm).1
  rwa [hrootOf]

/-- A path whose names are as the system lists them. -/
def Spelled (p : Text) : Prop := ∀ n ∈ names p, Utf8.nameForm n = n

/-- A name below a straight path. -/
theorem Straight.join (h : Straight p) {n : Text} (hn : IsName n) :
    Straight (Path.join p n) ∧ names (Path.join p n) = names p ++ [n] := by
  obtain ⟨root, hroot, hne, hp⟩ := h.written
  have hparts : ∀ m ∈ names p, IsPart m := fun m hm => (h.isName m hm).1
  have hnames : ∀ m ∈ names p ++ [n], IsName m := by
    intro m hm
    rcases List.mem_append.1 hm with hm | hm
    · exact h.isName m hm
    · rw [List.mem_singleton.1 hm]
      exact hn
  have hjoin : Path.join p n = Path.written root (names p ++ [n]) := by
    rw [hp, names_written hroot hparts]
    exact join_written hroot hparts hn.1
  rw [hjoin, names_written hroot fun m hm => (hnames m hm).1]
  exact ⟨straight_written hroot hne hnames, rfl⟩

/-- The directory of a straight path. -/
theorem Straight.dirName (h : Straight p) {n : Text} (hp : names p = ns ++ [n]) :
    Straight (Path.dirName p) ∧ names (Path.dirName p) = ns := by
  obtain ⟨root, hroot, hne, hwritten⟩ := h.written
  have hns : ∀ m ∈ ns, IsName m := fun m hm => h.isName m (by rw [hp]; exact List.mem_append_left _ hm)
  have hparts : ∀ m ∈ ns, IsPart m := fun m hm => (hns m hm).1
  have hn : IsName n := h.isName n (by rw [hp]; simp)
  have hdir : Path.dirName p = Path.written root ns := by
    rw [hwritten, hp]
    exact dirName_written hroot hparts hn.1
  rw [hdir, names_written hroot hparts]
  exact ⟨straight_written hroot hne hns, rfl⟩

end Path

namespace FileTree

variable {t u : FileTree} {aim : Aim} {slash : Bool} {links : Nat} {dir d l : Location} {p n : Text}
  {ns : List Text} {place : Place}

/-- The place that the names of a path spell. -/
def placeOf (p : Text) : Location := (Path.names p).map Utf8.nameForm

theorem placeOf_of_spelled (h : Path.Spelled p) : placeOf p = Path.names p := by
  unfold placeOf
  rw [List.map_congr_left h, List.map_id']

/-- The absolute form of a path is straight. -/
theorem straight_absolute (t : FileTree) (p : Text) : Path.Straight (t.absolute p) :=
  Path.straight_resolveAgainst rfl p

theorem absolute_straight (t : FileTree) (hp : Path.Straight p) : t.absolute p = p := by
  obtain ⟨root, hroot, hne, hwritten⟩ := hp.written
  rw [hwritten]
  exact absolute_of_isAbsolute hroot (Path.tidy_of_isName hp.isName) hne

theorem startOf_straight (t : FileTree) (hp : Path.Straight p) : t.startOf p = [] :=
  if_pos hp.isAbsolute

/-- A path that the system takes. -/
structure Fits (p : Text) : Prop where
  check : checkPath p = .ok ()
  short : Utf8.byteCount p < pathBytesLimit
  names : ∀ m ∈ Path.names p, Utf8.byteCount m ≤ maxNameBytes

/-- A text that the system can have as a name: no surrogates but those that stand for bytes, and no
NUL. -/
def Nameable (s : Text) : Prop :=
  ∀ c ∈ s, (c.isSurrogate = true → Utf8.isEscapedByte c = true) ∧ c.code ≠ 0

instance (s : Text) : Decidable (Nameable s) :=
  inferInstanceAs (Decidable (∀ c ∈ s,
    (c.isSurrogate = true → Utf8.isEscapedByte c = true) ∧ c.code ≠ 0))

theorem unnameable?_eq_none_iff (pos : Nat) (s : Text) :
    Utf8.unnameable? pos s = none
      ↔ ∀ c ∈ s, c.isSurrogate = true → Utf8.isEscapedByte c = true := by
  induction s generalizing pos with
  | nil => simp [Utf8.unnameable?]
  | cons c rest ih =>
    unfold Utf8.unnameable?
    rw [List.forall_mem_cons]
    by_cases hc : (c.isSurrogate && !Utf8.isEscapedByte c) = true
    · rw [if_pos hc]
      rw [Bool.and_eq_true, Bool.not_eq_true'] at hc
      simp [hc.1, hc.2]
    · rw [if_neg hc, ih (pos + 1)]
      simp only [Bool.and_eq_true, Bool.not_eq_true', not_and, Bool.not_eq_false] at hc
      exact ⟨fun h => ⟨hc, h⟩, fun h => h.2⟩

theorem checkPath_eq_ok_iff {s : Text} : checkPath s = .ok () ↔ Nameable s := by
  unfold checkPath Nameable
  cases h : Utf8.unnameable? 0 s with
  | some fault =>
    dsimp only
    refine ⟨fun hok => (by cases hok), fun hall => ?_⟩
    have hnone := (unnameable?_eq_none_iff 0 s).2 fun c hc => (hall c hc).1
    rw [h] at hnone
    cases hnone
  | none =>
    have hall := (unnameable?_eq_none_iff 0 s).1 h
    dsimp only
    split
    · rename_i hnul
      obtain ⟨c, hc, hzero⟩ := List.any_eq_true.1 hnul
      exact ⟨fun hok => (by cases hok), fun hname => absurd (by simpa using hzero) (hname c hc).2⟩
    · rename_i hnul
      refine ⟨fun _ c hc => ⟨hall c hc, fun hzero => hnul ?_⟩, fun _ => rfl⟩
      exact List.any_eq_true.2 ⟨c, hc, by simpa using hzero⟩

/-- A path is one that the system can have if its names are. -/
theorem nameable_iff_names {s : Text} : Nameable s ↔ ∀ m ∈ Path.names s, Nameable m := by
  constructor
  · intro h m hm c hc
    exact h c (Path.mem_of_mem_names hm hc)
  · intro h c hc
    by_cases hslash : c = CodePoint.slash
    · rw [hslash]
      decide
    · obtain ⟨m, hm, hcm⟩ := Path.exists_mem_names hslash hc
      exact h m hm c hcm

/-- A shorter path with names of a path that the system takes is taken too. -/
theorem Fits.mono {q : Text} (h : Fits p) (hshort : Utf8.byteCount q ≤ Utf8.byteCount p)
    (hnames : ∀ m ∈ Path.names q, m ∈ Path.names p) : Fits q where
  check := by
    have hp := nameable_iff_names.1 (checkPath_eq_ok_iff.1 h.check)
    exact checkPath_eq_ok_iff.2 (nameable_iff_names.2 fun m hm => hp m (hnames m hm))
  short := hshort.trans_lt h.short
  names m hm := h.names m (hnames m hm)

theorem byteCount_append (s s' : Text) :
    Utf8.byteCount (s ++ s') = Utf8.byteCount s + Utf8.byteCount s' := by
  unfold Utf8.byteCount Utf8.nameBytes
  rw [List.flatMap_append, List.length_append]

/-- The path of a directory fits if a path below it does. -/
theorem fits_written_of_append {root : Text} {ms : List Text} (hroot : Path.IsRoot root)
    (hns : ∀ m ∈ ns ++ ms, Path.IsPart m) (h : Fits (Path.written root (ns ++ ms))) :
    Fits (Path.written root ns) := by
  have hparts : ∀ m ∈ ns, Path.IsPart m := fun m hm => hns m (List.mem_append_left _ hm)
  refine h.mono ?_ ?_
  · by_cases hms : ms = []
    · rw [hms, List.append_nil]
    by_cases hnil : ns = []
    · rw [hnil, List.nil_append, Path.written_nil]
      unfold Path.written
      rw [byteCount_append]
      exact Nat.le_add_right _ _
    · unfold Path.written
      rw [Text.joinWith_append _ hms hnil, List.append_assoc, byteCount_append root,
        byteCount_append root, byteCount_append]
      exact Nat.add_le_add_left (Nat.le_add_right _ _) _
  · intro m hm
    rw [Path.names_written hroot hparts] at hm
    rw [Path.names_written hroot hns]
    exact List.mem_append_left _ hm

/-- The last name of a path spells the last name of its place. -/
theorem names_of_placeOf (h : placeOf p = d ++ [n]) :
    ∃ init last, Path.names p = init ++ [last] ∧ init.map Utf8.nameForm = d ∧ Utf8.nameForm last = n := by
  unfold placeOf at h
  obtain ⟨init, tail, hsplit, hinit, htail⟩ := List.map_eq_append_iff.1 h
  obtain ⟨last, rfl, hlast⟩ := List.map_eq_singleton_iff.1 htail
  exact ⟨init, last, hsplit, hinit, hlast⟩

/-! ## §2. Following names without links. -/

theorem LinkFree.ne_link (h : LinkFree t) (k : Location) (path : Text) : t.entryAt? k ≠ some (.link path) :=
  h k path

/-- Names are followed to where something lies that is no link. -/
theorem follow_of_present (aim : Aim) (slash : Bool) (links : Nat) :
    ∀ (dir : Location) {ns : List Text}, (∀ m ∈ ns, Path.IsName m) →
      (∀ m ∈ ns, Utf8.byteCount m ≤ maxNameBytes) →
      t.entryAt? (dir ++ ns.map Utf8.nameForm) ≠ none →
      (∀ path, t.entryAt? (dir ++ ns.map Utf8.nameForm) ≠ some (.link path)) →
      (ns = [] ∨ slash = false
        ∨ aim = .target ∧ t.entryAt? (dir ++ ns.map Utf8.nameForm) = some .directory) →
      follow t aim slash links dir ns = .ok (.occupied (dir ++ ns.map Utf8.nameForm))
  | dir, [], _, _, _, _, _ => by
    rw [List.map_nil, List.append_nil]
    exact follow_nil
  | dir, n :: rest, hns, hshort, hsome, hlink, hend => by
    have hn := hns n (List.mem_cons_self ..)
    have hsplit : dir ++ (n :: rest).map Utf8.nameForm
        = dir ++ [Utf8.nameForm n] ++ rest.map Utf8.nameForm := by simp
    rw [hsplit] at hsome hlink hend ⊢
    have hfile : ¬ (rest = [] ∧ slash = true ∧ aim = .file) := by
      rintro ⟨-, hslash, haim⟩
      rcases hend with hnil | hslash' | ⟨htarget, -⟩
      · cases hnil
      · rw [hslash'] at hslash
        cases hslash
      · rw [htarget] at haim
        cases haim
    rw [follow_named hn.2.1 hn.2.2, if_neg hfile,
      if_neg (Nat.not_lt.2 (hshort n (List.mem_cons_self ..)))]
    cases rest with
    | nil =>
      rw [List.map_nil, List.append_nil] at hsome hlink hend ⊢
      cases he : t.entryAt? (dir ++ [Utf8.nameForm n]) with
      | none => exact absurd he hsome
      | some e =>
        cases e with
        | file content =>
          have hslash : slash = false := by
            rcases hend with hnil | hslash | ⟨-, hdir⟩
            · cases hnil
            · exact hslash
            · rw [he] at hdir
              cases hdir
          dsimp only
          rw [if_pos ⟨rfl, hslash⟩]
        | directory =>
          dsimp only
          exact follow_nil
        | link path => exact absurd he (hlink path)
    | cons m more =>
      -- something lies further down, so this is a directory
      have hdir : t.entryAt? (dir ++ [Utf8.nameForm n]) = some .directory := isDirectory_of_append hsome
      rw [hdir]
      dsimp only
      refine follow_of_present aim slash links _ (fun x hx => hns x (List.mem_cons_of_mem _ hx))
        (fun x hx => hshort x (List.mem_cons_of_mem _ hx)) hsome hlink ?_
      rcases hend with hnil | hslash | htarget
      · cases hnil
      · exact .inr (.inl hslash)
      · exact .inr (.inr htarget)

/-- Names are followed to a vacant name of a directory. -/
theorem follow_of_vacant (aim : Aim) (links : Nat) (dir : Location) (hns : ∀ m ∈ ns, Path.IsName m)
    (hn : Path.IsName n)
    (hshort : ∀ m ∈ ns ++ [n], Utf8.byteCount m ≤ maxNameBytes)
    (hdir : t.entryAt? (dir ++ ns.map Utf8.nameForm) = some .directory)
    (hnone : t.entryAt? (dir ++ ns.map Utf8.nameForm ++ [Utf8.nameForm n]) = none)
    (hslash : slash = false) :
    follow t aim slash links dir (ns ++ [n])
      = .ok (.vacant (dir ++ ns.map Utf8.nameForm) (Utf8.nameForm n)) := by
  have hinit := follow_of_present .target true links dir hns
    (fun m hm => hshort m (List.mem_append_left _ hm)) (by rw [hdir]; simp) (by rw [hdir]; simp)
    (.inr (.inr ⟨rfl, hdir⟩))
  obtain ⟨links', hlast⟩ := exists_follow_concat hinit aim slash n
  rw [hlast, follow_named hn.2.1 hn.2.2, if_neg (by simp [hslash]),
    if_neg (Nat.not_lt.2 (hshort n (by simp))), hnone]
  rfl

/-- **Where names lead in a tree without links**: to the place that they spell, or to a vacant
name of a directory. -/
theorem follow_cases (hfree : LinkFree t) :
    ∀ {ns : List Text} {dir : Location}, (∀ m ∈ ns, Path.IsName m) →
      t.entryAt? dir = some .directory → follow t aim slash links dir ns = .ok place →
      (∀ m ∈ ns, Utf8.byteCount m ≤ maxNameBytes) ∧
        ((t.entryAt? (dir ++ ns.map Utf8.nameForm) ≠ none
            ∧ place = .occupied (dir ++ ns.map Utf8.nameForm))
          ∨ ∃ d n, dir ++ ns.map Utf8.nameForm = d ++ [n] ∧ t.entryAt? d = some .directory
              ∧ t.entryAt? (d ++ [n]) = none ∧ place = .vacant d n)
  | [], dir, _, hdir, h => by
    rw [follow_nil] at h
    cases h
    rw [List.map_nil, List.append_nil]
    exact ⟨fun m hm => (List.not_mem_nil hm).elim, .inl ⟨by rw [hdir]; simp, rfl⟩⟩
  | n :: rest, dir, hns, hdir, h => by
    have hn := hns n (List.mem_cons_self ..)
    have hsplit : dir ++ (n :: rest).map Utf8.nameForm
        = dir ++ [Utf8.nameForm n] ++ rest.map Utf8.nameForm := by simp
    rw [hsplit]
    obtain ⟨hshort, hfinds⟩ := finds_of_follow hn.2.1 hn.2.2 h
    generalize he : t.entryAt? (dir ++ [Utf8.nameForm n]) = found at hfinds
    cases hfinds with
    | vacant hrest =>
      subst hrest
      rw [List.map_nil, List.append_nil]
      exact ⟨by simpa using hshort, .inr ⟨dir, Utf8.nameForm n, rfl, hdir, he, rfl⟩⟩
    | directory hnext =>
      have hrest := follow_cases hfree (fun x hx => hns x (List.mem_cons_of_mem _ hx)) he hnext
      exact ⟨List.forall_mem_cons.2 ⟨hshort, hrest.1⟩, hrest.2⟩
    | file hrest =>
      subst hrest
      rw [List.map_nil, List.append_nil]
      exact ⟨by simpa using hshort, .inl ⟨by rw [he]; simp, rfl⟩⟩
    | link => exact absurd he (hfree.ne_link _ _)
    | through => exact absurd he (hfree.ne_link _ _)

/-- Trees that agree on the way are followed alike. -/
theorem follow_congr (hfree : LinkFree t) :
    ∀ (dir : Location) {ns : List Text}, (∀ m ∈ ns, Path.IsName m) →
      (∀ k, k <+: ns.map Utf8.nameForm → t.entryAt? (dir ++ k) = u.entryAt? (dir ++ k)) →
      follow t aim slash links dir ns = follow u aim slash links dir ns
  | dir, [], _, _ => by rw [follow_nil, follow_nil]
  | dir, n :: rest, hns, h => by
    have hn := hns n (List.mem_cons_self ..)
    have hone : [Utf8.nameForm n] <+: (n :: rest).map Utf8.nameForm := by simp
    refine follow_named_congr hn.2.1 hn.2.2 (.inl (h _ hone)) (fun _ => ?_) fun path _ he =>
      absurd he (hfree.ne_link _ _)
    refine follow_congr hfree _ (fun x hx => hns x (List.mem_cons_of_mem _ hx)) fun k hk => ?_
    have hcons : Utf8.nameForm n :: k <+: (n :: rest).map Utf8.nameForm :=
      List.prefix_cons_inj _ |>.2 hk
    have hagree := h _ hcons
    rwa [List.append_cons] at hagree

/-! ## §3. Straight paths. -/

/-- A path that can be told to the system is refused by the system only. -/
theorem isSystemFault_of_locate {failure : Failure} (hcheck : checkPath p = .ok ())
    (h : t.locate aim p = .error failure) : failure.isSystemFault = true := by
  unfold locate at h
  rw [hcheck] at h
  simp only [bind, Except.bind] at h
  split at h
  · cases h
  · cases h
    rfl

section Straight

variable (hfree : LinkFree t) (hp : Path.Straight p)

include hfree hp

theorem locate_of_fits (hfits : Fits p) (hsome : t.entryAt? (placeOf p) ≠ none) :
    t.locate aim p = .ok (.occupied (placeOf p)) := by
  refine locate_eq_ok_iff.2 ⟨hfits.check, hp.ne_nil, Nat.not_le.2 hfits.short, ?_⟩
  rw [if_pos hp.isAbsolute]
  have hfollow := follow_of_present aim (Text.endsWith p "/") maxLinks [] hp.isName hfits.names hsome
    fun path => hfree.ne_link _ path
  rw [List.nil_append] at hfollow
  apply hfollow
  by_cases hnames : Path.names p = []
  · exact .inl hnames
  · exact .inr (.inl (hp.not_slash hnames))

/-- **Where a straight path leads.** -/
theorem locate_cases (h : t.locate aim p = .ok place) :
    Fits p ∧ ((t.entryAt? (placeOf p) ≠ none ∧ place = .occupied (placeOf p))
      ∨ ∃ d n, placeOf p = d ++ [n] ∧ t.entryAt? d = some .directory
          ∧ t.entryAt? (d ++ [n]) = none ∧ place = .vacant d n) := by
  obtain ⟨hcheck, -, hlong, hfollow⟩ := locate_eq_ok_iff.1 h
  rw [if_pos hp.isAbsolute] at hfollow
  obtain ⟨hshort, hplace⟩ := follow_cases hfree hp.isName (entryAt?_root t) hfollow
  rw [List.nil_append] at hplace
  exact ⟨⟨hcheck, Nat.not_le.1 hlong, hshort⟩, hplace⟩

/-- The system refuses a path that it does not take. -/
theorem locate_of_unfit (hcheck : checkPath p = .ok ()) (hunfit : ¬ Fits p) :
    ∃ failure, t.locate aim p = .error failure ∧ failure.isSystemFault = true := by
  cases h : t.locate aim p with
  | ok place => exact absurd (locate_cases hfree hp h).1 hunfit
  | error failure => exact ⟨failure, rfl, isSystemFault_of_locate hcheck h⟩

omit hfree in
theorem locate_of_vacant (hfits : Fits p) (hd : placeOf p = d ++ [n])
    (hdir : t.entryAt? d = some .directory) (hnone : t.entryAt? (d ++ [n]) = none) :
    t.locate aim p = .ok (.vacant d n) := by
  refine locate_eq_ok_iff.2 ⟨hfits.check, hp.ne_nil, Nat.not_le.2 hfits.short, ?_⟩
  rw [if_pos hp.isAbsolute]
  obtain ⟨init, last, hnames, hinit, hlast⟩ := names_of_placeOf hd
  have hslash : Text.endsWith p "/" = false := hp.not_slash (by rw [hnames]; simp)
  have hfollow := follow_of_vacant aim maxLinks []
    (fun m hm => hp.isName m (by rw [hnames]; exact List.mem_append_left _ hm))
    (hp.isName last (by rw [hnames]; simp)) (by rw [← hnames]; exact hfits.names)
    (by rw [List.nil_append, hinit]; exact hdir)
    (by rw [List.nil_append, hinit, hlast]; exact hnone) hslash
  rw [List.nil_append, hinit, hlast] at hfollow
  rw [hnames]
  exact hfollow

/-- What is found at a straight path that the system takes is what lies at its place. -/
theorem find?_of_fits (hfits : Fits p) : t.find? p = t.entryAt? (placeOf p) := by
  unfold find?
  cases he : t.entryAt? (placeOf p) with
  | some e =>
    rw [locate_of_fits hfree hp hfits (by rw [he]; simp)]
    exact he
  | none =>
    cases hl : t.locate .target p with
    | error failure => rfl
    | ok place =>
      rcases (locate_cases hfree hp hl).2 with ⟨hsome, -⟩ | ⟨d, n, -, -, -, rfl⟩
      · exact absurd he hsome
      · rfl

theorem find?_of_not_fits (hfits : ¬ Fits p) : t.find? p = none := by
  unfold find?
  cases hl : t.locate .target p with
  | error failure => rfl
  | ok place => exact absurd (locate_cases hfree hp hl).1 hfits

theorem findLink?_eq_find? : t.findLink? p = t.find? p := by
  by_cases hfits : Fits p
  · by_cases hsome : t.entryAt? (placeOf p) = none
    · rw [find?_of_fits hfree hp hfits, hsome]
      unfold findLink?
      cases hl : t.locate .name p with
      | error failure => rfl
      | ok place =>
        rcases (locate_cases hfree hp hl).2 with ⟨hne, -⟩ | ⟨d, n, -, -, -, rfl⟩
        · exact absurd hsome hne
        · rfl
    · unfold findLink? find?
      rw [locate_of_fits hfree hp hfits hsome, locate_of_fits hfree hp hfits hsome]
  · rw [find?_of_not_fits hfree hp hfits]
    unfold findLink?
    cases hl : t.locate .name p with
    | error failure => rfl
    | ok place => exact absurd (locate_cases hfree hp hl).1 hfits

theorem find?_eq_some_iff {e : Entry} :
    t.find? p = some e ↔ Fits p ∧ t.entryAt? (placeOf p) = some e := by
  by_cases hfits : Fits p
  · rw [find?_of_fits hfree hp hfits]
    exact ⟨fun h => ⟨hfits, h⟩, fun h => h.2⟩
  · rw [find?_of_not_fits hfree hp hfits]
    exact ⟨fun h => (Option.some_ne_none _ h.symm).elim, fun h => absurd h.1 hfits⟩

theorem namesDirectory_iff :
    t.namesDirectory p = true ↔ Fits p ∧ t.entryAt? (placeOf p) = some .directory := by
  unfold namesDirectory
  rw [decide_eq_true_eq]
  exact find?_eq_some_iff hfree hp

theorem pathExists_iff : t.pathExists p = true ↔ Fits p ∧ t.entryAt? (placeOf p) ≠ none := by
  unfold pathExists
  rw [Option.isSome_iff_exists]
  constructor
  · rintro ⟨e, he⟩
    obtain ⟨hfits, hplace⟩ := (find?_eq_some_iff hfree hp).1 he
    exact ⟨hfits, ne_none_of_eq_some hplace⟩
  · rintro ⟨hfits, hsome⟩
    obtain ⟨e, he⟩ := Option.ne_none_iff_exists'.1 hsome
    exact ⟨e, (find?_eq_some_iff hfree hp).2 ⟨hfits, he⟩⟩

theorem readBytes_eq_ok_iff {content : Bytes} :
    t.readBytes p = .ok content ↔ Fits p ∧ t.entryAt? (placeOf p) = some (.file content) := by
  constructor
  · intro h
    obtain ⟨l, hl, he⟩ := exists_of_readBytes h
    obtain ⟨hfits, hplace⟩ := locate_cases hfree hp hl
    rcases hplace with ⟨-, hplace⟩ | ⟨d, n, -, -, -, hvacant⟩
    · cases hplace
      exact ⟨hfits, he⟩
    · cases hvacant
  · rintro ⟨hfits, he⟩
    exact readBytes_of_locate (locate_of_fits hfree hp hfits (ne_none_of_eq_some he)) he

theorem openDirectory_eq_ok_iff :
    t.openDirectory p = .ok l ↔ Fits p ∧ l = placeOf p ∧ t.entryAt? (placeOf p) = some .directory := by
  constructor
  · intro h
    have hdir := entryAt?_of_openDirectory h
    unfold openDirectory at h
    split at h
    · cases h
    · cases h
    · rename_i l' hl
      split at h
      · cases h
        obtain ⟨hfits, hplace⟩ := locate_cases hfree hp hl
        rcases hplace with ⟨-, hplace⟩ | ⟨d, n, -, -, -, hvacant⟩
        · cases hplace
          exact ⟨hfits, rfl, hdir⟩
        · cases hvacant
      · cases h
  · rintro ⟨hfits, rfl, hdir⟩
    exact openDirectory_of_locate (locate_of_fits hfree hp hfits (ne_none_of_eq_some hdir)) hdir

theorem openDirectory_refused (hcheck : checkPath p = .ok ())
    (h : ¬ (Fits p ∧ t.entryAt? (placeOf p) = some .directory)) :
    ∃ failure, t.openDirectory p = .error failure ∧ failure.isSystemFault = true := by
  cases hopen : t.openDirectory p with
  | ok l =>
    obtain ⟨hfits, -, hdir⟩ := (openDirectory_eq_ok_iff hfree hp).1 hopen
    exact absurd ⟨hfits, hdir⟩ h
  | error failure =>
    refine ⟨failure, rfl, ?_⟩
    unfold openDirectory at hopen
    split at hopen
    · rename_i hl
      cases hopen
      exact isSystemFault_of_locate hcheck hl
    · cases hopen
      rfl
    · split at hopen
      · cases hopen
      · cases hopen
        rfl

/-- A file is written at the place of its path, in a directory that is there. -/
theorem fileAt_cases {found : Location × Option Bytes} (h : t.fileAt p = .ok found) :
    ∃ d n, found.1 = d ++ [n] ∧ placeOf p = d ++ [n] ∧ t.entryAt? d = some .directory := by
  unfold fileAt at h
  split at h
  · cases h
  · rename_i parent name hl
    cases h
    rcases (locate_cases hfree hp hl).2 with ⟨-, hplace⟩ | ⟨d, n, hdn, hdir, -, hvacant⟩
    · cases hplace
    · obtain ⟨rfl, rfl⟩ := Place.vacant.inj hvacant
      exact ⟨_, _, rfl, hdn, hdir⟩
  · rename_i l hl
    split at h
    · rename_i bytes he
      cases h
      rcases (locate_cases hfree hp hl).2 with ⟨hsome, hplace⟩ | ⟨d, n, -, -, -, hvacant⟩
      · cases hplace
        rcases List.eq_nil_or_concat (placeOf p) with hnil | ⟨d, n, hdn⟩
        · rw [hnil, entryAt?_root] at he
          cases he
        · rw [List.concat_eq_append] at hdn
          rw [hdn] at hsome
          exact ⟨d, n, hdn, hdn, isDirectory_of_append hsome⟩
      · cases hvacant
    · cases h

/-! ## §4. The last location. -/

theorem lastLocation_of_fits (dots : Ending → SystemFault) (hfits : Fits p)
    (hd : placeOf p = d ++ [n]) (hdir : t.entryAt? d = some .directory) :
    t.lastLocation p dots = .ok (d ++ [n]) := by
  have hlocate : ∃ place, t.locate .name p = .ok place := by
    by_cases hsome : t.entryAt? (d ++ [n]) = none
    · exact ⟨_, locate_of_vacant hp hfits hd hdir hsome⟩
    · exact ⟨_, locate_of_fits hfree hp hfits (by rw [hd]; exact hsome)⟩
  obtain ⟨place, hlocate⟩ := hlocate
  obtain ⟨init, last, hnames, hplace, hname⟩ := names_of_placeOf hd
  have hinit : ∀ m ∈ init, Path.IsName m := fun m hm =>
    hp.isName m (by rw [hnames]; exact List.mem_append_left _ hm)
  obtain ⟨d', hleads, hlast⟩ := lastLocation_of_locate hnames (hp.isName last (by rw [hnames]; simp))
    (hp.not_slash (by rw [hnames]; simp)) dots hlocate
  rw [startOf_straight t hp] at hleads
  have hd' := hleads.eq_append hinit fun k path _ _ => hfree.ne_link _ _
  rw [hlast, hd', List.nil_append, hplace, hname]

/-- **Where an operation on a straight path takes place.** -/
theorem lastLocation_cases {dots : Ending → SystemFault} (hcheck : checkPath p = .ok ())
    (h : t.lastLocation p dots = .ok l) :
    Fits p ∧ l = placeOf p ∧ ∃ d n, l = d ++ [n] ∧ t.entryAt? d = some .directory := by
  obtain ⟨d, last, hparent, hend, hlast, rfl⟩ := lastLocation_eq_ok h
  obtain ⟨init, hnames, -⟩ := eq_concat_of_ending hend
  have hinit : ∀ m ∈ init, Path.IsName m := fun m hm =>
    hp.isName m (by rw [hnames]; exact List.mem_append_left _ hm)
  unfold parentOf at hparent
  split at hparent
  · cases hparent
  split at hparent
  · cases hparent
  rename_i hlong
  rw [if_pos hp.isAbsolute, hnames, List.dropLast_concat] at hparent
  cases hfollow : follow t .target true maxLinks [] init with
  | error fault =>
    rw [hfollow] at hparent
    cases hparent
  | ok place =>
    rw [hfollow] at hparent
    obtain ⟨hshort, hplace⟩ := follow_cases hfree hinit (entryAt?_root t) hfollow
    -- the names before the last must lead to something that is there
    rcases hplace with ⟨-, rfl⟩ | ⟨d', n, -, -, -, rfl⟩
    · cases hparent
      have hdir := (leads_of_follow hfollow (.inl ⟨rfl, rfl⟩)).isDirectory (entryAt?_root t)
      rw [List.nil_append] at hdir ⊢
      refine ⟨⟨hcheck, Nat.not_le.1 hlong, ?_⟩, ?_, _, _, rfl, hdir⟩
      · rw [hnames]
        exact List.forall_mem_append.2 ⟨hshort, List.forall_mem_singleton.2 (Nat.not_lt.1 hlast)⟩
      · unfold placeOf
        rw [hnames, List.map_append, List.map_singleton]
    · cases hparent

/-! ## §5. Trees that agree on the way. -/

theorem locate_congr (h : ∀ k, k <+: placeOf p → t.entryAt? k = u.entryAt? k) :
    t.locate aim p = u.locate aim p := by
  unfold locate
  rw [if_pos hp.isAbsolute, if_pos hp.isAbsolute,
    follow_congr (u := u) hfree [] hp.isName fun k hk => h k hk]

theorem entryAt?_congr_of_locate (h : ∀ k, k <+: placeOf p → t.entryAt? k = u.entryAt? k)
    (hl : t.locate aim p = .ok (.occupied l)) : t.entryAt? l = u.entryAt? l := by
  rcases (locate_cases hfree hp hl).2 with ⟨-, hplace⟩ | ⟨d, n, -, -, -, hvacant⟩
  · cases hplace
    exact h _ List.prefix_rfl
  · cases hvacant

theorem find?_congr (h : ∀ k, k <+: placeOf p → t.entryAt? k = u.entryAt? k) :
    t.find? p = u.find? p := by
  unfold find?
  rw [← locate_congr hfree hp h]
  cases hl : t.locate .target p with
  | error failure => rfl
  | ok place =>
    cases place with
    | occupied l => exact entryAt?_congr_of_locate hfree hp h hl
    | vacant parent name => rfl

theorem readBytes_congr (h : ∀ k, k <+: placeOf p → t.entryAt? k = u.entryAt? k) :
    t.readBytes p = u.readBytes p :=
  readBytes_congr_of_locate (locate_congr hfree hp h) fun _ hl =>
    entryAt?_congr_of_locate hfree hp h hl

/-- A file that can be read is replaced in its place, and nothing else. -/
theorem replaceText_straight {content : Text} {old : Bytes} (hread : t.readBytes p = .ok old)
    (h : t.replaceText p content = .ok u) :
    ∃ bytes, Utf8.encode content = .ok bytes ∧ u.workingDir = t.workingDir
      ∧ u.entryAt? (placeOf p) = some (.file bytes)
      ∧ ∀ k, k ≠ placeOf p → u.entryAt? k = t.entryAt? k := by
  obtain ⟨hfits, hold⟩ := (readBytes_eq_ok_iff hfree hp).1 hread
  exact replaceText_file hfree hp.isAbsolute
    (locate_of_fits hfree hp hfits (ne_none_of_eq_some hold)) hold h

theorem lastLocation_congr (dots : Ending → SystemFault)
    (h : ∀ k, k <+: placeOf p → t.entryAt? k = u.entryAt? k) :
    t.lastLocation p dots = u.lastLocation p dots := by
  have hinit : ∀ m ∈ (Path.names p).dropLast, Path.IsName m := fun m hm =>
    hp.isName m (List.dropLast_subset _ hm)
  have hway : ∀ k, k <+: (Path.names p).dropLast.map Utf8.nameForm → t.entryAt? k = u.entryAt? k := by
    intro k hk
    refine h k (hk.trans ?_)
    exact (List.dropLast_prefix (Path.names p)).map _
  unfold lastLocation parentOf
  rw [if_pos hp.isAbsolute, if_pos hp.isAbsolute,
    follow_congr (u := u) hfree [] hinit fun k hk => hway k hk]

end Straight

end FileTree

end ModuleBuild
