/-
  ModuleBuild.Proofs.FileTree.Within
  ──────────────────────────────────
  **WHAT LIES WITHIN A DIRECTORY, WITHOUT LINKS.**

  In a tree without links no part of a path is resolved to anything else, so
  real paths are a matter of the text alone: they are refused alike in all
  such trees, and the real path of a straight path has its names.

  Main results:
    * `isDirectory_startOf` — a relative path has a real path only in a working directory;
    * `isWithin_congr` — trees without links agree on what lies within a directory;
    * `isWithin_straight` — for straight paths it is a matter of their names.
-/
import ModuleBuild.FileTree.RealPath
import ModuleBuild.Proofs.FileTree.Straight

namespace ModuleBuild

namespace FileTree

variable {t u : FileTree} {p root : Text} {base pieces : List Text}

theorem linkAt?_eq_none (hfree : LinkFree t) (stem : Stem) : t.linkAt? stem = none := by
  unfold linkAt?
  split
  · rfl
  · split
    · rename_i path hlink
      exact absurd hlink (hfree _ path)
    · rfl

/-! ## §1. Real paths are a matter of the text. -/

theorem realFrom_congr (ht : LinkFree t) (hu : LinkFree u) (links links' : Nat)
    (trail trail' : List Stem) :
    ∀ (pieces : List Text) (stem : Stem),
      realFrom t links trail stem pieces = realFrom u links' trail' stem pieces
  | [], stem => by rw [realFrom_nil, realFrom_nil]
  | name :: rest, stem => by
    rw [realFrom.eq_def t, realFrom.eq_def u]
    dsimp only
    rw [linkAt?_eq_none ht, linkAt?_eq_none hu]
    dsimp only
    rw [realFrom_congr ht hu links links' trail trail' rest stem,
      realFrom_congr ht hu links links' trail trail' rest stem.above,
      realFrom_congr ht hu links links' trail trail' rest (stem.push name)]

/-- What is resolved from the root stays there. -/
theorem realFrom_rooted (ht : LinkFree t) (links : Nat) (trail : List Stem) :
    ∀ (pieces : List Text) (names : Location) (r : Resolution),
      realFrom t links trail (.rooted names) pieces = .ok r →
      ∃ names', r = .resolved (.rooted names')
  | [], names, r, h => by
    rw [realFrom_nil] at h
    cases h
    exact ⟨names, rfl⟩
  | name :: rest, names, r, h => by
    rw [realFrom.eq_def] at h
    dsimp only at h
    rw [linkAt?_eq_none ht] at h
    dsimp only [Stem.above, Stem.push] at h
    split at h
    · exact realFrom_rooted ht links trail rest _ r h
    split at h
    · exact realFrom_rooted ht links trail rest _ r h
    split at h
    · cases h
    · exact realFrom_rooted ht links trail rest _ r h

/-- What is resolved from the working directory stays a relative path. -/
theorem realFrom_relative (ht : LinkFree t) (links : Nat) (trail : List Stem) :
    ∀ (pieces : List Text) (ups : Nat) (names : Location) (r : Resolution),
      (∀ m ∈ pieces, CodePoint.slash ∉ m) → (∀ m ∈ names, Path.IsPart m) →
      realFrom t links trail (.relative ups names) pieces = .ok r →
      ∃ ups' names', r = .resolved (.relative ups' names') ∧ ∀ m ∈ names', Path.IsPart m
  | [], ups, names, r, _, hnames, h => by
    rw [realFrom_nil] at h
    cases h
    exact ⟨ups, names, rfl, hnames⟩
  | name :: rest, ups, names, r, hpieces, hnames, h => by
    have hrest := fun m hm => hpieces m (List.mem_cons_of_mem name hm)
    rw [realFrom.eq_def] at h
    dsimp only at h
    rw [linkAt?_eq_none ht] at h
    dsimp only [Stem.push] at h
    split at h
    · exact realFrom_relative ht links trail rest _ _ r hrest hnames h
    split at h
    · cases names with
      | nil => exact realFrom_relative ht links trail rest _ _ r hrest hnames h
      | cons first others =>
        refine realFrom_relative ht links trail rest _ _ r hrest (fun m hm => ?_) h
        exact hnames m ((List.dropLast_sublist _).mem hm)
    split at h
    · cases h
    -- a plain name is added to the others
    · rename_i hplain _ _ _
      refine realFrom_relative ht links trail rest _ _ r hrest (fun m hm => ?_) h
      rcases List.mem_append.1 hm with hm | hm
      · exact hnames m hm
      · rw [List.mem_singleton.1 hm]
        exact ⟨fun hnil => hplain (.inl hnil), hpieces name (List.mem_cons_self ..)⟩

/-- **A path has a real path only if there is a directory that it starts from.** -/
theorem isDirectory_startOf (ht : LinkFree t) {real : RealPath} (h : t.realPath p = .ok real) :
    t.entryAt? (t.startOf p) = some .directory := by
  cases habs : Path.isAbsolute p with
  | true =>
    rw [startOf, if_pos habs]
    exact entryAt?_root t
  | false =>
    unfold realPath at h
    rw [habs, if_neg Bool.false_ne_true] at h
    cases hfrom : realFrom t (t.top.linkCount * pathBytesLimit) [] (.relative 0 [])
        (Text.split CodePoint.slash p) with
    | error failure =>
      rw [hfrom] at h
      cases h
    | ok r =>
      -- a relative path has a relative real path, for which the working directory is looked up
      obtain ⟨ups, names, rfl, hnames⟩ := realFrom_relative ht _ _ _ _ _ _
        (fun m hm => Text.not_mem_of_mem_split hm) (fun m hm => (List.not_mem_nil hm).elim) hfrom
      have hparts : ∀ m ∈ List.replicate ups Path.up ++ names, Path.IsPart m := by
        intro m hm
        rcases List.mem_append.1 hm with hm | hm
        · rw [(List.mem_replicate.1 hm).2]
          exact Path.isPart_up
        · exact hnames m hm
      have hrelative : Path.isAbsolute (Stem.relative ups names).path = false :=
        Path.isAbsolute_written (.inl rfl) hparts
      rw [hfrom] at h
      dsimp only at h
      unfold checkWorkingDir at h
      rw [hrelative, Bool.false_or] at h
      rw [startOf, if_neg (by simp [habs])]
      by_contra hgone
      rw [if_neg (by simpa [isDirectory] using hgone)] at h
      cases h

theorem realPath_congr (ht : LinkFree t) (hu : LinkFree u) (hp : Path.isAbsolute p = true) :
    t.realPath p = u.realPath p := by
  unfold realPath
  rw [if_pos hp, realFrom_congr ht hu _ (u.top.linkCount * pathBytesLimit) _ []]
  cases h : realFrom u (u.top.linkCount * pathBytesLimit) [] (.rooted [])
      (Text.split CodePoint.slash p) with
  | error failure => rfl
  | ok r =>
    obtain ⟨names, rfl⟩ := realFrom_rooted hu _ _ _ _ _ h
    rfl

/-- **Trees without links agree on what lies within a directory.** -/
theorem isWithin_congr (ht : LinkFree t) (hu : LinkFree u) (hp : Path.isAbsolute p = true)
    (hroot : Path.isAbsolute root = true) : t.isWithin p root = u.isWithin p root := by
  unfold isWithin
  rw [realPath_congr ht hu hp, realPath_congr ht hu hroot]

/-! ## §2. Straight paths. -/

theorem checkPath_pathOf {l : Location} (hl : ∀ m ∈ l, Path.IsName m) :
    checkPath (pathOf l) = .ok () ↔ ∀ m ∈ l, Nameable m := by
  rw [checkPath_eq_ok_iff, nameable_iff_names, pathOf_eq_written,
    Path.names_written (.inr (.inl rfl)) fun m hm => (hl m hm).1]

theorem realFrom_names (ht : LinkFree t) (links : Nat) (trail : List Stem) :
    ∀ (pieces : List Text) (base : Location), (∀ m ∈ pieces, m ≠ [] → Path.IsName m) →
      (∀ m ∈ base, Path.IsName m ∧ Nameable m) →
      (∀ r, realFrom t links trail (.rooted base) pieces = .ok r → ∀ m ∈ pieces, Nameable m)
        ∧ ((∀ m ∈ pieces, Nameable m) → realFrom t links trail (.rooted base) pieces
            = .ok (.resolved (.rooted (base ++ pieces.filter (· ≠ [])))))
  | [], base, _, _ => by
    rw [realFrom_nil]
    exact ⟨fun _ _ m hm => (List.not_mem_nil hm).elim, fun _ => by simp⟩
  | name :: rest, base, hpieces, hbase => by
    have hrest := fun m hm => hpieces m (List.mem_cons_of_mem name hm)
    rw [realFrom.eq_def]
    dsimp only
    rw [linkAt?_eq_none ht]
    dsimp only [Stem.push]
    by_cases hname : name = []
    · subst hname
      rw [if_pos (.inl rfl)]
      obtain ⟨h1, h2⟩ := realFrom_names ht links trail rest base hrest hbase
      refine ⟨fun r h m hm => ?_, fun hall => ?_⟩
      · rcases List.mem_cons.1 hm with rfl | hm
        · intro c hc
          cases hc
        · exact h1 r h m hm
      · rw [h2 fun m hm => hall m (List.mem_cons_of_mem _ hm), List.filter_cons_of_neg (by simp)]
    · have hn := hpieces name (List.mem_cons_self ..) hname
      have hnext : ∀ m ∈ base ++ [name], Path.IsName m := by
        intro m hm
        rcases List.mem_append.1 hm with hm | hm
        · exact (hbase m hm).1
        · rw [List.mem_singleton.1 hm]
          exact hn
      rw [if_neg (by rintro (h | h); exacts [hname h, hn.2.1 h]), if_neg hn.2.2]
      have hcheck := checkPath_pathOf hnext
      dsimp only [Stem.path]
      -- each name is checked with all those before it, which were checked before
      by_cases hok : ∀ m ∈ base ++ [name], Nameable m
      · obtain ⟨h1, h2⟩ := realFrom_names ht links trail rest (base ++ [name]) hrest
          fun m hm => ⟨hnext m hm, hok m hm⟩
        rw [hcheck.2 hok]
        refine ⟨fun r h m hm => ?_, fun hall => ?_⟩
        · rcases List.mem_cons.1 hm with rfl | hm
          · exact hok m (by simp)
          · exact h1 r h m hm
        · dsimp only
          rw [h2 fun m hm => hall m (List.mem_cons_of_mem _ hm),
            List.filter_cons_of_pos (by simpa using hname), List.append_assoc]
          rfl
      · have hbad : ¬ Nameable name := by
          intro hname
          apply hok
          intro m hm
          rcases List.mem_append.1 hm with hm | hm
          · exact (hbase m hm).2
          · rw [List.mem_singleton.1 hm]
            exact hname
        cases hc : checkPath (pathOf (base ++ [name])) with
        | ok x => exact absurd (hcheck.1 hc) hok
        | error failure =>
          exact ⟨fun r h => (by cases h), fun hall => absurd (hall name (List.mem_cons_self ..)) hbad⟩

section

variable (ht : LinkFree t) (hp : Path.Straight p)

include ht hp

/-- The real path of a straight path has its names, if the system can have such a path. -/
theorem realPath_straight :
    (∀ r, t.realPath p = .ok r → checkPath p = .ok ())
      ∧ (checkPath p = .ok () → t.realPath p = .ok ⟨Path.names p, false⟩) := by
  have hpieces : ∀ m ∈ Text.split CodePoint.slash p, m ≠ [] → Path.IsName m := by
    intro m hm hne
    exact hp.isName m (List.mem_filter.2 ⟨hm, by simpa using hne⟩)
  obtain ⟨h1, h2⟩ := realFrom_names ht (t.top.linkCount * pathBytesLimit) []
    (Text.split CodePoint.slash p) [] hpieces (by simp)
  have hnameable : checkPath p = .ok () ↔ ∀ m ∈ Text.split CodePoint.slash p, Nameable m := by
    rw [checkPath_eq_ok_iff, nameable_iff_names]
    constructor
    · intro h m hm
      by_cases hne : m = []
      · rw [hne]
        intro c hc
        cases hc
      · exact h m (List.mem_filter.2 ⟨hm, by simpa using hne⟩)
    · intro h m hm
      exact h m (List.mem_of_mem_filter hm)
  unfold realPath
  rw [if_pos hp.isAbsolute]
  constructor
  · intro r h
    rw [hnameable]
    cases hreal : realFrom t (t.top.linkCount * pathBytesLimit) [] (.rooted [])
        (Text.split CodePoint.slash p) with
    | error failure =>
      rw [hreal] at h
      cases h
    | ok r' => exact h1 r' hreal
  · intro hcheck
    rw [h2 (hnameable.1 hcheck), List.nil_append]
    rfl

end

/-- **What lies within a directory, by names.** -/
theorem isWithin_straight (ht : LinkFree t) (hp : Path.Straight p) (hroot : Path.Straight root) {b : Bool} :
    t.isWithin p root = .ok b ↔ checkPath p = .ok () ∧ checkPath root = .ok ()
      ∧ b = (Path.names root).isPrefixOf (Path.names p) := by
  obtain ⟨h1, h2⟩ := realPath_straight ht hp
  obtain ⟨h3, h4⟩ := realPath_straight ht hroot
  unfold isWithin
  constructor
  · intro h
    cases hinner : t.realPath p with
    | error failure =>
      rw [hinner] at h
      cases h
    | ok inner =>
      cases houter : t.realPath root with
      | error failure =>
        rw [hinner, houter] at h
        cases h
      | ok outer =>
        have hc := h1 _ hinner
        have hc' := h3 _ houter
        rw [h2 hc, h4 hc'] at h
        cases h
        exact ⟨hc, hc', rfl⟩
  · rintro ⟨hc, hc', rfl⟩
    rw [h2 hc, h4 hc']
    rfl

end FileTree

end ModuleBuild
