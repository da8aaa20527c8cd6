/-
  ModuleBuild.Proofs.Output.PlacedAgain
  ─────────────────────────────────────
  **PLACING ASSETS A SECOND TIME.**

  Assets that were placed once are placed again, over what the first run has
  left.  In a tree without links an asset is copied anew each time: what lay
  at its destination does not matter, only its source does, and the sources
  are the same as long as none of them lies in the output.

  The proof follows both runs at once.  What the first run has at some place,
  the second has too; what only the second has was made by the first run
  later on, and is there in its final tree.  Where the first run ends, there
  is no such place left.

  Main results:
    * `placeOne_stocked`, `place_stocked` — what a tree holds while assets are placed, and where one may
      make a difference;
    * `placeOne_again` — one asset in both runs: it meets the same fate;
    * `place_again` — placing assets again gives the same report and the same tree.
-/
import ModuleBuild.Proofs.FileTree.Renewing
import ModuleBuild.Proofs.FileTree.Within
import ModuleBuild.Proofs.Output.Outside

namespace ModuleBuild

open FileTree Edit

namespace Assets

variable {source output asset : Text} {t u t' u' b z : FileTree} {m S D : Location} {e : Option Entry}

/-! ## §1. The places of an asset. -/

/-- The names that an asset has below a directory. -/
def pieces (asset : Text) : List Text := (Path.names asset).filter (· ≠ Path.here)

/-- Where an asset is in the sources. -/
def sourcePlace (source asset : Text) : Location := Path.names source ++ pieces asset

/-- What is asked of an asset: its path has no name that leads up, the asset does not lie in the
output, and it does not hold the manifest. -/
structure Admissible (source output : Text) (m : Location) (asset : Text) : Prop where
  spelled : Path.Spelled asset
  noUp : Path.up ∉ Path.names asset
  apart : Path.names output <+: sourcePlace source asset → sourcePlace source asset = Path.names output
  manifest : ¬ sourcePlace source asset <+: m

theorem pathIn_straight {dir : Text} (hdir : Path.Straight dir)
    (habs : Path.isAbsolute asset = false) (hup : Path.up ∉ Path.names asset) :
    Path.Straight (pathIn dir asset)
      ∧ Path.names (pathIn dir asset) = Path.names dir ++ pieces asset := by
  constructor
  · have hstraight := Path.straight_resolveAgainst hdir.isAbsolute asset
    unfold Path.resolveAgainst at hstraight
    rwa [habs, if_neg Bool.false_ne_true] at hstraight
  · have hne : ∀ n ∈ Path.names asset, n ≠ [] := fun n hn => by
      simpa using (List.mem_filter.1 hn).2
    unfold pathIn
    rw [Path.names_normalize (Path.isAbsolute_join hdir.isAbsolute asset), Path.names_join habs,
      List.foldl_append, Path.foldl_pushName_of_isName _ _ _ hdir.isName,
      Path.foldl_pushName_of_ne_up _ _ _ hup hne]
    simp [pieces]

theorem placeOf_pathIn {dir : Text} (hdir : Path.Straight dir) (hspelled : Path.Spelled dir)
    (habs : Path.isAbsolute asset = false) (hup : Path.up ∉ Path.names asset)
    (hasset : Path.Spelled asset) :
    placeOf (pathIn dir asset) = Path.names dir ++ pieces asset := by
  have hnames := (pathIn_straight hdir habs hup).2
  have h : Path.Spelled (pathIn dir asset) := by
    intro n hn
    rw [hnames, List.mem_append] at hn
    rcases hn with hn | hn
    · exact hspelled n hn
    · exact hasset n (List.mem_filter.1 hn).1
  rw [placeOf_of_spelled h, hnames]

/-- An asset without names of its own is the source itself. -/
theorem pathIn_of_pieces_nil (habs : Path.isAbsolute asset = false) (hup : Path.up ∉ Path.names asset)
    (hnil : pieces asset = []) (dir : Text) : pathIn dir asset = Path.normalize dir := by
  have hne : ∀ n ∈ Path.names asset, n ≠ [] := fun n hn => by
    simpa using (List.mem_filter.1 hn).2
  have hroot := Path.rootOf_join habs dir
  have hnames : Path.normalNames (Path.join dir asset) = Path.normalNames dir := by
    rw [Path.normalNames_eq, Path.normalNames_eq, hroot, Path.names_join habs, List.foldl_append,
      Path.foldl_pushName_of_ne_up _ _ _ hup hne]
    unfold pieces at hnil
    rw [hnil, List.reverse_nil, List.nil_append]
  unfold pathIn Path.normalize
  rw [hroot, hnames]

/-- An asset with a name of its own has a path that ends with it. -/
theorem ended_pathIn (habs : Path.isAbsolute asset = false) (hup : Path.up ∉ Path.names asset)
    (hne : pieces asset ≠ []) (dir : Text) : Path.Ended (pathIn dir asset) := by
  obtain ⟨first, n, hlast⟩ := (List.eq_nil_or_concat (pieces asset)).resolve_left hne
  rw [List.concat_eq_append] at hlast
  have hmem : n ∈ Path.names asset ∧ n ≠ Path.here := by
    have hn : n ∈ pieces asset := hlast ▸ by simp
    simpa [pieces] using hn
  have hsolid : ∀ m ∈ Path.names asset, m ≠ [] := fun m hm => by simpa using (List.mem_filter.1 hm).2
  have hnames : ∃ init, Path.normalNames (Path.join dir asset) = init ++ [n] := by
    rw [Path.normalNames_eq, Path.names_join habs, List.foldl_append,
      Path.foldl_pushName_of_ne_up _ _ _ hup hsolid, List.reverse_append, List.reverse_reverse]
    unfold pieces at hlast
    rw [hlast, ← List.append_assoc]
    exact ⟨_, rfl⟩
  obtain ⟨init, hinit⟩ := hnames
  have htidy := Path.tidy_normalNames (Path.join dir asset)
  rw [hinit] at htidy
  refine ⟨Path.rootOf (Path.join dir asset), init, n, ?_, Path.isRoot_rootOf _, htidy,
    isName_of_mem_names hmem.1 hmem.2 fun e => hup (e ▸ hmem.1)⟩
  unfold pathIn Path.normalize
  rw [hinit]
  refine if_neg fun hnil => ?_
  have hnone := Path.names_written (Path.isRoot_rootOf (Path.join dir asset)) htidy.isPart
  unfold Path.written at hnone
  rw [hnil] at hnone
  exact absurd hnone.symm (by simp [Path.names, Text.split])

/-- An asset that is allowed has a name of its own. -/
theorem pieces_ne_nil_of_allowed (hup : Path.up ∉ Path.names asset)
    (h : judge t source output asset = .ok .allowed) : pieces asset ≠ [] := by
  obtain ⟨habs, -, hproper, -⟩ := judge_eq_allowed_iff.1 h
  exact fun hnil => hproper (pathIn_of_pieces_nil habs hup hnil source)

/-- What is known of the asset that is copied. -/
structure Goes (source output asset : Text) (t : FileTree) : Prop where
  nonempty : pieces asset ≠ []
  fits : Fits (pathIn source asset)
  present : t.entryAt? (sourcePlace source asset) ≠ none
  apart : ¬ sourcePlace source asset <+: Path.names output
  nameable : checkPath output = .ok ()
  dest : checkPath (pathIn output asset) = .ok ()

section

variable (hs : Path.Straight source) (hss : Path.Spelled source) (ho : Path.Straight output)

include hs hss ho

theorem goes_of_allowed (hfree : LinkFree t) (hup : Path.up ∉ Path.names asset)
    (hasset : Path.Spelled asset) (h : judge t source output asset = .ok .allowed) :
    Goes source output asset t := by
  obtain ⟨habs, -, -, hexists, hholds⟩ := judge_eq_allowed_iff.1 h
  obtain ⟨hfrom, hnames⟩ := pathIn_straight hs habs hup
  obtain ⟨hfits, hpresent⟩ := (pathExists_iff hfree hfrom).1 hexists
  obtain ⟨houtput, -, hapart⟩ := (isWithin_straight hfree ho hfrom).1 hholds
  rw [placeOf_pathIn hs hss habs hup hasset] at hpresent
  rw [hnames, eq_comm, Bool.eq_false_iff, ne_eq, List.isPrefixOf_iff_prefix] at hapart
  refine ⟨pieces_ne_nil_of_allowed hup h, hfits,
    hpresent, hapart, houtput, ?_⟩
  -- the names below the output stand below the source too
  have hcheck := hfits.check
  rw [checkPath_eq_ok_iff, nameable_iff_names] at hcheck houtput ⊢
  rw [hnames] at hcheck
  rw [(pathIn_straight ho habs hup).2]
  intro n hn
  rcases List.mem_append.1 hn with hn | hn
  · exact houtput n hn
  · exact hcheck n (List.mem_append_right _ hn)

end

/-! ## §2. Copying. -/

/-- The report on an asset that was copied with some result. -/
def reported (r : Report) (asset : Text) : Except Failure Unit → Except Failure Report
  | .ok _ => .ok (r.place asset)
  | .error failure => if failure.isSystemFault then .ok (r.skip asset) else .error failure

/-- A copy that the system refuses. -/
def isRefusal : Except Failure Unit → Bool
  | .ok _ => false
  | .error failure => failure.isSystemFault

theorem reported_of_isRefusal (r : Report) (asset : Text) {rc : Except Failure Unit}
    (h : isRefusal rc = true) : reported r asset rc = .ok (r.skip asset) := by
  cases rc with
  | ok x => cases h
  | error failure => exact if_pos h

/-- Copies that come to the same are reported alike. -/
theorem reported_again (asset : Text) {r ru r' : Report} {rc rc' : Except Failure Unit} (hsame : SameOutcome rc rc')
    (hplaced : ru.placed = r.placed) (hskipped : ru.skipped = r.skipped)
    (h : reported r asset rc = .ok r') :
    ∃ ru', reported ru asset rc' = .ok ru' ∧ ru'.placed = r'.placed ∧ ru'.skipped = r'.skipped := by
  cases rc with
  | ok x =>
    obtain rfl : rc' = .ok x := by
      rcases hsame with hsame | ⟨failure, failure', hno, -⟩
      · exact hsame.symm
      · cases hno
    cases h
    exact ⟨_, rfl, by simp [Report.place, hplaced], hskipped⟩
  | error failure =>
    have hsystem : failure.isSystemFault = true := by
      unfold reported at h
      dsimp only at h
      by_contra hno
      rw [if_neg hno] at h
      cases h
    obtain ⟨failure', rfl, hsystem'⟩ : ∃ failure', rc' = .error failure' ∧ failure'.isSystemFault = true := by
      rcases hsame with hsame | ⟨-, failure', -, hright, -, hsystem'⟩
      · exact ⟨failure, hsame.symm, hsystem⟩
      · exact ⟨failure', hright, hsystem'⟩
    unfold reported at h
    dsimp only at h
    rw [if_pos hsystem] at h
    cases h
    exact ⟨_, reported_of_isRefusal ru asset hsystem', hplaced, by simp [Report.skip, hskipped]⟩

/-- What copying an asset reports and leaves, once its destination is cleared. -/
theorem runOn_copy_of_clear (source : Text) (r : Report) {w : World} {t : FileTree} {taken : Bool}
    {events : List Event} (hclear : (clear (pathIn output asset)).runOn w = (.ok taken, ⟨t, events⟩)) :
    ∃ events', (copy source output asset r).runOn w
      = (reported (if taken then r.replace asset else r) asset
          ((copyPath (pathIn source asset) (pathIn output asset)).runOn t).1,
        ⟨((copyPath (pathIn source asset) (pathIn output asset)).runOn t).2, events'⟩) := by
  unfold copy
  dsimp only
  rw [Action.runOn_bind, runOn_attempt, hclear]
  dsimp only
  rw [Action.runOn_bind, runOn_attempt, Action.runOn_lift]
  rcases (copyPath (pathIn source asset) (pathIn output asset)).runOn t with ⟨failure | x, t'⟩
  · dsimp only [reported]
    by_cases hsystem : failure.isSystemFault = true
    · simp only [if_pos hsystem]
      exact ⟨_, rfl⟩
    · simp only [if_neg hsystem]
      exact ⟨_, rfl⟩
  · exact ⟨_, rfl⟩

/-- An asset is copied anew, if its destination can be cleared. -/
theorem runOn_copy (r : Report) {w : World} {t1 : FileTree}
    (hclear : (clearPath (pathIn output asset)).runOn w.tree = (.ok (), t1)) :
    ∃ base events, base.placed = r.placed ∧ base.skipped = r.skipped ∧
      (copy source output asset r).runOn w
        = (reported base asset
            ((renew (pathIn source asset) (pathIn output asset)).runOn w.tree).1,
          ⟨((renew (pathIn source asset) (pathIn output asset)).runOn w.tree).2, events⟩) := by
  have hcleared : ∃ taken events, (clear (pathIn output asset)).runOn w = (.ok taken, ⟨t1, events⟩) := by
    have hclear := hclear
    unfold clearPath at hclear
    rw [runOn_bind, runOn_get] at hclear
    dsimp only at hclear
    rcases tree_clear (pathIn output asset) w with ⟨hocc, hrun⟩ | ⟨hocc, rc, t', events, hrun, hall⟩
    · rw [hocc, if_neg Bool.false_ne_true] at hclear
      cases hclear
      exact ⟨false, w.events, hrun⟩
    · rw [hocc, if_pos rfl, hrun] at hclear
      cases hclear
      exact ⟨true, events, hall⟩
  obtain ⟨taken, events, hcleared⟩ := hcleared
  obtain ⟨events', hcopy⟩ := runOn_copy_of_clear source r hcleared
  refine ⟨if taken then r.replace asset else r, events', ?_, ?_, ?_⟩
  · split <;> rfl
  · split <;> rfl
  · unfold renew
    rw [runOn_bind, hclear]
    exact hcopy

/-- Copying an asset that is allowed, in terms of copying anew. -/
theorem runOn_placeOne_of_allowed (r : Report) {w : World} (hfree : LinkFree w.tree)
    (hup : Path.up ∉ Path.names asset) (h : judge w.tree source output asset = .ok .allowed) :
    ∃ base events, base.placed = r.placed ∧ base.skipped = r.skipped ∧
      (placeOne source output asset r).runOn w
        = (reported base asset
            ((renew (pathIn source asset) (pathIn output asset)).runOn w.tree).1,
          ⟨((renew (pathIn source asset) (pathIn output asset)).runOn w.tree).2, events⟩) := by
  have hended := ended_pathIn (judge_eq_allowed_iff.1 h).1 hup (pieces_ne_nil_of_allowed hup h) output
  rw [placeOne_of_allowed r h]
  obtain ⟨t1, hclear, -⟩ := clearPath_cleared hfree hended
  exact runOn_copy r hclear

/-- An asset that is not allowed is skipped. -/
theorem runOn_placeOne_of_skipped (r : Report) {w : World} {verdict : Verdict}
    (h : judge w.tree source output asset = .ok verdict) (hne : verdict ≠ .allowed) :
    ∃ events, (placeOne source output asset r).runOn w = (.ok (r.skip asset), ⟨w.tree, events⟩) := by
  unfold placeOne
  rw [Action.runOn_bind, Action.runOn_ask, h]
  dsimp only
  cases hwords : warningFor source output asset verdict with
  | none => exact absurd (warningFor_eq_none_iff.1 hwords) hne
  | some words => exact ⟨_, rfl⟩

/-- Placing one asset is the step on it. -/
theorem place_singleton (source output asset : Text) (w : World) :
    ((place [asset] source output).runOn w).1 = ((placeOne source output asset .empty).runOn w).1 ∧
      ((place [asset] source output).runOn w).2.tree
        = ((placeOne source output asset .empty).runOn w).2.tree := by
  unfold place placeFrom
  rw [if_neg (by simp), Action.runOn_bind, Action.runOn_bind]
  rcases (placeOne source output asset .empty).runOn w with ⟨failure | r, w'⟩
  · exact ⟨rfl, rfl⟩
  · exact ⟨rfl, rfl⟩

/-- Without a verdict nothing is placed. -/
theorem exists_verdict {r r' : Report} {w w' : World}
    (h : (placeOne source output asset r).runOn w = (.ok r', w')) :
    ∃ verdict, judge w.tree source output asset = .ok verdict := by
  unfold placeOne at h
  rw [Action.runOn_bind, Action.runOn_ask] at h
  cases hjudge : judge w.tree source output asset with
  | ok verdict => exact ⟨verdict, rfl⟩
  | error failure =>
    rw [hjudge] at h
    cases h

/-! ## §3. What a tree holds while assets are placed. -/

/-- A tree that assets were placed in: in the output lies what was there before or in the sources. -/
structure Stocked (source output : Text) (b t : FileTree) : Prop where
  proper : Proper t
  free : LinkFree t
  workingDir : t.workingDir = b.workingDir
  outside : ∀ k, ¬ Path.names output <+: k → t.entryAt? k = b.entryAt? k
    ∨ b.entryAt? k = none ∧ t.entryAt? k = some .directory ∧ k <+: Path.names output
  inside : ∀ j, t.entryAt? (Path.names output ++ j) = none
    ∨ t.entryAt? (Path.names output ++ j) = b.entryAt? (Path.names output ++ j)
    ∨ t.entryAt? (Path.names output ++ j) = b.entryAt? (Path.names source ++ j)
  root : t.entryAt? (Path.names output) = b.entryAt? (Path.names output)
    ∨ t.entryAt? (Path.names output) = some .directory
  /-- Nothing is placed in an output that the system does not take. -/
  named : (∀ k, t.entryAt? k = b.entryAt? k) ∨ checkPath output = .ok ()

theorem Stocked.refl (hproper : Proper b) (hfree : LinkFree b) : Stocked source output b b :=
  ⟨hproper, hfree, rfl, fun _ _ => .inl rfl, fun _ => .inr (.inl rfl), .inl rfl, .inl fun _ => rfl⟩

/-- Two trees differ by directories that were made and by what lies at or below the places of some
assets, none of which holds the output. -/
def Moved (source output : Text) (assets : List Text) (t t' : FileTree) : Prop :=
  ∀ k, t'.entryAt? k = t.entryAt? k ∨ (t.entryAt? k = none ∧ t'.entryAt? k = some .directory)
    ∨ ∃ asset ∈ assets, Path.isAbsolute asset = false
      ∧ ¬ sourcePlace source asset <+: Path.names output ∧ Path.names output ++ pieces asset <+: k

theorem Moved.refl {assets : List Text} (t : FileTree) : Moved source output assets t t :=
  fun _ => .inl rfl

theorem Moved.mono {assets assets' : List Text} (h : Moved source output assets t t')
    (hsub : ∀ a ∈ assets, a ∈ assets') : Moved source output assets' t t' :=
  fun k => (h k).imp_right (.imp_right fun ⟨asset, hmem, hrest⟩ => ⟨asset, hsub asset hmem, hrest⟩)

theorem Moved.trans {assets : List Text} (h : Moved source output assets t t')
    (h' : Moved source output assets t' u) : Moved source output assets t u := by
  intro k
  rcases h' k with hsame | ⟨hnone, hmade⟩ | hplace
  · rw [hsame]
    exact h k
  · rcases h k with hsame | ⟨-, hdir⟩ | hplace
    · exact .inr (.inl ⟨hsame.symm.trans hnone, hmade⟩)
    · rw [hnone] at hdir
      cases hdir
    · exact .inr (.inr hplace)
  · exact .inr (.inr hplace)

/-- Where an asset that does not lie in the output is, and below, all is as before. -/
theorem Stocked.same_source (h : Stocked source output b t) (hadm : Admissible source output m asset)
    (hgoes : Goes source output asset t) {k : Location} (hk : sourcePlace source asset <+: k) :
    t.entryAt? k = b.entryAt? k := by
  have hnot : ¬ Path.names output <+: k := by
    intro ho
    rcases List.prefix_or_prefix_of_prefix ho hk with hpre | hpre
    · exact hgoes.apart (hadm.apart hpre ▸ List.prefix_rfl)
    · exact hgoes.apart hpre
  rcases h.outside k hnot with hsame | ⟨-, -, hpre⟩
  · exact hsame
  · exact absurd (hk.trans hpre) hgoes.apart

theorem Stocked.above (h : Stocked source output b t) (hadm : Admissible source output m asset)
    (hgoes : Goes source output asset t) {j : Location} (hj : j <+: pieces asset)
    (hne : j ≠ pieces asset) : b.entryAt? (Path.names source ++ j) = some .directory := by
  have hpresent : b.entryAt? (sourcePlace source asset) ≠ none := by
    rw [← h.same_source hadm hgoes List.prefix_rfl]
    exact hgoes.present
  exact isDirectory_of_below hpresent ((List.prefix_append_right_inj _).2 hj)
    fun e => hne (List.append_cancel_left e)

/-- Copying an asset anew into such a tree gives another. -/
theorem Stocked.renews (h : Stocked source output b t) (hadm : Admissible source output m asset)
    (hgoes : Goes source output asset t) (hproper : Proper t')
    (hrenews : Renews (sourcePlace source asset) (Path.names output ++ pieces asset) t t') :
    Stocked source output b t' where
  proper := hproper
  free := hrenews.free
  workingDir := hrenews.workingDir.trans h.workingDir
  outside k hk := by
    rcases hrenews.outside k fun hD => hk ((List.prefix_append ..).trans hD) with
      hsame | ⟨hnone, hmade, hpre⟩
    · rw [hsame]
      exact h.outside k hk
    · have hway : k <+: Path.names output :=
        (List.prefix_or_prefix_of_prefix hpre (List.prefix_append ..)).resolve_right hk
      rcases h.outside k hk with hsame | ⟨-, hdir, -⟩
      · exact .inr ⟨hsame ▸ hnone, hmade, hway⟩
      · rw [hnone] at hdir
        cases hdir
  inside j := by
    by_cases hD : pieces asset <+: j
    · obtain ⟨q, rfl⟩ := hD
      have hq := hrenews.inside q
      rw [List.append_assoc] at hq
      rcases hq with hnone | hkept | hsource
      · exact .inl hnone
      · rw [hkept]
        exact h.inside _
      · rw [hsource, h.same_source hadm hgoes (List.prefix_append ..)]
        refine .inr (.inr ?_)
        unfold sourcePlace
        rw [List.append_assoc]
    · have hnot : ¬ Path.names output ++ pieces asset <+: Path.names output ++ j := fun hpre =>
        hD ((List.prefix_append_right_inj _).1 hpre)
      rcases hrenews.outside _ hnot with hsame | ⟨-, hmade, hpre⟩
      · rw [hsame]
        exact h.inside j
      · -- a directory on the way stands in the sources, too
        rw [hmade, h.above hadm hgoes ((List.prefix_append_right_inj _).1 hpre)
          fun e => hD (e ▸ List.prefix_rfl)]
        exact .inr (.inr rfl)
  root := by
    have hnot : ¬ Path.names output ++ pieces asset <+: Path.names output := by
      intro hpre
      have hlen := hpre.length_le
      rw [List.length_append] at hlen
      exact hgoes.nonempty (List.length_eq_zero_iff.1 (by omega))
    rcases hrenews.outside _ hnot with hsame | ⟨-, hmade, -⟩
    · rw [hsame]
      exact h.root
    · exact .inr hmade
  named := .inr hgoes.nameable

/-! ## §4. Both runs. -/

/-- Two trees have the same at a location, or different files where the manifest is. -/
def SameBut (m : Location) (t u : FileTree) (k : Location) : Prop :=
  t.entryAt? k = u.entryAt? k
    ∨ k = m ∧ ∃ content content', t.entryAt? k = some (.file content) ∧ u.entryAt? k = some (.file content')

/-- A tree of the second run, beside one of the first that began with `b` and ends with `z`; the second
has `e` where the manifest is. -/
structure Restocked (output : Text) (m : Location) (e : Option Entry) (z b t u : FileTree) : Prop where
  free : LinkFree u
  workingDir : u.workingDir = t.workingDir
  kept : ∀ k, t.entryAt? k ≠ none → SameBut m t u k
  /-- What only the second run has, the first will have. -/
  left : ∀ k, t.entryAt? k = none → u.entryAt? k ≠ none →
    (Path.names output <+: k ∨ k <+: Path.names output) ∧ b.entryAt? k = none
      ∧ (z.entryAt? k).map Entry.shape = (u.entryAt? k).map Entry.shape
  named : (∀ k, t.entryAt? k = none → u.entryAt? k = none) ∨ checkPath output = .ok ()
  manifest : u.entryAt? m = e

theorem Restocked.refl (hfree : LinkFree t) : Restocked output m (t.entryAt? m) z b t t :=
  ⟨hfree, rfl, fun _ _ => .inl rfl, fun _ hnone hsome => absurd hnone hsome, .inl fun _ => id, rfl⟩

/-- When the first run has ended, the trees are the same. -/
theorem Restocked.done (h : Restocked output m e z b z u) (k : Location) : SameBut m z u k := by
  by_cases hk : z.entryAt? k = none
  · by_cases hu : u.entryAt? k = none
    · exact .inl (hk.trans hu.symm)
    · have hshape := (h.left k hk hu).2.2
      rw [hk] at hshape
      exact absurd (Option.map_eq_none_iff.1 hshape.symm) hu
  · exact h.kept k hk

/-- The sources of an asset are the same in both runs, and so are the directories on the way to its
destination, as far as the first run has made them. -/
theorem Restocked.meets (h : Restocked output m e z b t u) (ht : Stocked source output b t)
    (hz : Stocked source output b z) (hadm : Admissible source output m asset)
    (hgoes : Goes source output asset t) :
    Meets (sourcePlace source asset) (Path.names output ++ pieces asset) t u := by
  have hout : ¬ Path.names output <+: sourcePlace source asset := fun hpre =>
    hgoes.apart (hadm.apart hpre ▸ List.prefix_rfl)
  refine ⟨ht.proper, ht.free, h.free, ⟨fun hD => hout ((List.prefix_append ..).trans hD), fun hS => ?_⟩,
    hgoes.present, fun k hk => ?_, fun k hk hne => ?_⟩
  · rcases List.prefix_or_prefix_of_prefix hS (List.prefix_append ..) with hpre | hpre
    · exact hgoes.apart hpre
    · exact hout hpre
  · by_cases hnone : t.entryAt? k = none
    · -- nothing appears in the sources
      by_contra hne
      have hu : u.entryAt? k ≠ none := fun hu => hne (hnone.trans hu.symm)
      rcases hk with hk | hk
      · exact hgoes.present (entryAt?_eq_none_of_below hnone hk)
      · rcases (h.left k hnone hu).1 with hpre | hpre
        · rcases List.prefix_or_prefix_of_prefix hk hpre with hcone | hcone
          · exact hgoes.apart hcone
          · exact hout hcone
        · exact hgoes.apart (hk.trans hpre)
    · rcases h.kept k hnone with hsame | ⟨rfl, content, content', hfile, -⟩
      · exact hsame
      · rcases hk with hk | hk
        · have hdir := isDirectory_of_below hgoes.present hk fun e => hadm.manifest (e ▸ List.prefix_rfl)
          rw [hfile] at hdir
          cases hdir
        · exact absurd hk hadm.manifest
  · by_cases hnone : t.entryAt? k = none
    · by_cases hu : u.entryAt? k = none
      · exact .inl (hnone.trans hu.symm)
      · -- the first run makes this directory later on
        obtain ⟨-, hbefore, hshape⟩ := h.left k hnone hu
        have hzk : z.entryAt? k ≠ none := by
          intro hzk
          rw [hzk] at hshape
          exact hu (Option.map_eq_none_iff.1 hshape.symm)
        have hdir : z.entryAt? k = some .directory := by
          by_cases hcone : Path.names output <+: k
          · obtain ⟨j, rfl⟩ := hcone
            have hj := (List.prefix_append_right_inj _).1 hk
            have habove := ht.above hadm hgoes hj fun e => hne (by rw [e])
            rcases hz.inside j with hgone | hkept | hsource
            · exact absurd hgone hzk
            · exact absurd (hkept.trans hbefore) hzk
            · exact hsource.trans habove
          · rcases hz.outside k hcone with hsame | ⟨-, hmade, -⟩
            · exact absurd (hsame.trans hbefore) hzk
            · exact hmade
        rw [hdir] at hshape
        exact .inr (.inr ⟨hnone, Entry.eq_directory_of_shape hshape.symm⟩)
    · rcases h.kept k hnone with hsame | ⟨-, hfiles⟩
      · exact .inl hsame
      · exact .inr (.inl hfiles)

/-- Copying an asset anew in both runs. -/
theorem Restocked.renewed (h : Restocked output m e z b t u) (he : e ≠ none) (hm : ¬ D <+: m)
    (hnameable : checkPath output = .ok ()) (hr : Renewed S D t u t' u') :
    Restocked output m e z b t' u' := by
  refine ⟨hr.right.free, ?_, fun k hk => ?_, fun k hk hsome => ?_, .inr hnameable, ?_⟩
  · rw [hr.right.workingDir, hr.left.workingDir, h.workingDir]
  · by_cases hcone : D <+: k
    · obtain ⟨q, rfl⟩ := hcone
      rcases hr.dest with hsame | hkept
      · exact .inl (hsame q)
      · unfold SameBut
        rw [(hkept q).1] at hk ⊢
        rw [(hkept q).2]
        exact h.kept _ hk
    · rcases hr.left.outside k hcone with hsame | ⟨-, hmade, hpre⟩
      · rw [hsame] at hk
        have hu : u.entryAt? k ≠ none := by
          rcases h.kept k hk with heq | ⟨-, content, content', -, hfile⟩
          · exact fun hnone => hk (heq.trans hnone)
          · exact ne_none_of_eq_some hfile
        have hsameu : u'.entryAt? k = u.entryAt? k :=
          (hr.right.outside k hcone).resolve_right fun hmade => hu hmade.1
        unfold SameBut
        rw [hsame, hsameu]
        exact h.kept k hk
      · -- a directory that the first run makes is there in the second
        refine .inl ?_
        rcases (hr.way k hpre fun e => hcone (e ▸ List.prefix_rfl)).1 with
          hsame | ⟨content, content', hfile, -⟩ | ⟨hnone, -⟩
        · exact hsame
        · rw [hmade] at hfile
          cases hfile
        · exact absurd hnone hk
  · by_cases hcone : D <+: k
    · obtain ⟨q, rfl⟩ := hcone
      rcases hr.dest with hsame | hkept
      · exact absurd ((hsame q).symm.trans hk) hsome
      · rw [(hkept q).1] at hk
        rw [(hkept q).2] at hsome ⊢
        exact h.left _ hk hsome
    · have hsame : t'.entryAt? k = t.entryAt? k :=
        (hr.left.outside k hcone).resolve_right fun hmade => by
          rw [hmade.2.1] at hk
          cases hk
      rw [hsame] at hk
      rcases hr.right.outside k hcone with hsameu | ⟨hnone, -, hpre⟩
      · rw [hsameu] at hsome ⊢
        exact h.left k hk hsome
      · -- where both had nothing, both have the same
        have hboth := (hr.way k hpre fun e => hcone (e ▸ List.prefix_rfl)).2 (hk.trans hnone.symm)
        exact absurd (hboth.symm.trans (hsame.trans hk)) hsome
  · rcases hr.right.outside m hm with hsame | ⟨hnone, -⟩
    · exact hsame.trans h.manifest
    · exact absurd (h.manifest.symm.trans hnone) he

/-- The verdict on an asset in two trees. -/
theorem judge_alike {verdict : Verdict}
    (hinside : t.isWithin (pathIn source asset) source = u.isWithin (pathIn source asset) source)
    (hholds : t.isWithin output (pathIn source asset) = u.isWithin output (pathIn source asset))
    (hthere : t.pathExists (pathIn source asset) = u.pathExists (pathIn source asset)
      ∨ t.pathExists (pathIn source asset) = false ∧ u.isWithin output (pathIn source asset) = .ok true)
    (h : judge t source output asset = .ok verdict) :
    ∃ verdict', judge u source output asset = .ok verdict'
      ∧ (verdict' = .allowed ↔ verdict = .allowed) := by
  rcases hthere with hthere | ⟨hmissing, hcontains⟩
  · refine ⟨verdict, ?_, Iff.rfl⟩
    unfold judge at h ⊢
    dsimp only at h ⊢
    rwa [← hinside, ← hholds, ← hthere]
  · -- missing before, the asset contains the output now
    have hnot : verdict ≠ .allowed := by
      rintro rfl
      have hexists := (judge_eq_allowed_iff.1 h).2.2.2.1
      rw [hmissing] at hexists
      cases hexists
    unfold judge at h ⊢
    dsimp only at h ⊢
    rw [← hinside, hcontains]
    generalize t.isWithin (pathIn source asset) source = inside at h ⊢
    generalize Path.isAbsolute asset = absolute at h ⊢
    by_cases hroot : pathIn source asset = Path.normalize source
    · cases absolute <;> rcases inside with failure | _ | _ <;>
        simp [hroot, hnot, bind, Except.bind, pure, Except.pure] at h ⊢
    · cases absolute <;> rcases inside with failure | _ | _ <;>
        cases u.pathExists (pathIn source asset) <;>
        simp [hroot, hnot, bind, Except.bind, pure, Except.pure] at h ⊢

/-- Judging an asset in both runs. -/
theorem judge_again (hs : Path.Straight source) (hss : Path.Spelled source)
    (ho : Path.Straight output) {verdict : Verdict} (hstocked : Stocked source output b t)
    (hre : Restocked output m e z b t u)
    (hadm : Path.isAbsolute asset = false → Admissible source output m asset)
    (h : judge t source output asset = .ok verdict) :
    ∃ verdict', judge u source output asset = .ok verdict'
      ∧ (verdict' = .allowed ↔ verdict = .allowed) := by
  by_cases habs : Path.isAbsolute asset = true
  · rw [judge_absolute habs] at h ⊢
    exact ⟨_, rfl, by rw [Except.ok.inj h]⟩
  rw [Bool.not_eq_true] at habs
  have hadm := hadm habs
  obtain ⟨hfrom, hnames⟩ := pathIn_straight hs habs hadm.noUp
  have hplace := placeOf_pathIn hs hss habs hadm.noUp hadm.spelled
  refine judge_alike (isWithin_congr hstocked.free hre.free hfrom.isAbsolute hs.isAbsolute)
    (isWithin_congr hstocked.free hre.free ho.isAbsolute hfrom.isAbsolute) ?_ h
  have hthere : ∀ v : FileTree, LinkFree v → (v.pathExists (pathIn source asset) = true
      ↔ Fits (pathIn source asset) ∧ v.entryAt? (sourcePlace source asset) ≠ none) := by
    intro v hfree
    rw [pathExists_iff hfree hfrom, hplace]
    rfl
  rw [Bool.eq_iff_iff, Bool.eq_false_iff, ne_eq, hthere t hstocked.free, hthere u hre.free,
    isWithin_straight hre.free ho hfrom, hnames, @eq_comm _ true, List.isPrefixOf_iff_prefix]
  by_cases hfits : Fits (pathIn source asset)
  · by_cases hnone : t.entryAt? (sourcePlace source asset) = none
    · by_cases hu : u.entryAt? (sourcePlace source asset) = none
      · exact .inl ⟨fun ht => absurd hnone ht.2, fun hu' => absurd hu hu'.2⟩
      · -- what only the second run has lies on the way to the output
        have hnamed := hre.named.resolve_left fun hall => hu (hall _ hnone)
        have hpre : sourcePlace source asset <+: Path.names output := by
          rcases (hre.left _ hnone hu).1 with hpre | hpre
          · exact hadm.apart hpre ▸ List.prefix_rfl
          · exact hpre
        exact .inr ⟨fun hthere => hthere.2 hnone, hnamed, hfits.check, hpre⟩
    · have hu : u.entryAt? (sourcePlace source asset) ≠ none := by
        rcases hre.kept _ hnone with heq | ⟨-, content, content', -, hfile⟩
        · exact fun hu => hnone (heq.trans hu)
        · exact ne_none_of_eq_some hfile
      exact .inl ⟨fun _ => ⟨hfits, hu⟩, fun _ => ⟨hfits, hnone⟩⟩
  · exact .inl ⟨fun ht => absurd ht.1 hfits, fun hu => absurd hu.1 hfits⟩

section

variable (ho : Path.Straight output) (hos : Path.Spelled output) (hne : Path.names output ≠ [])

include ho hos hne

variable (hs : Path.Straight source) (hss : Path.Spelled source)

include hs hss

/-- What copying an asset leaves in two trees. -/
theorem renewed_of_allowed (hfree : LinkFree t) (hadm : Admissible source output m asset)
    (h : judge t source output asset = .ok .allowed)
    (hmeets : Meets (sourcePlace source asset) (Path.names output ++ pieces asset) t u)
    {r r' : Except Failure Unit}
    (ht : (renew (pathIn source asset) (pathIn output asset)).runOn t = (r, t'))
    (hu : (renew (pathIn source asset) (pathIn output asset)).runOn u = (r', u')) :
    SameOutcome r r'
      ∧ Renewed (sourcePlace source asset) (Path.names output ++ pieces asset) t u t' u' := by
  have habs := (judge_eq_allowed_iff.1 h).1
  have hgoes := goes_of_allowed hs hss ho hfree hadm.noUp hadm.spelled h
  exact renew_renewed hmeets (pathIn_straight hs habs hadm.noUp).1 hgoes.fits
    (placeOf_pathIn hs hss habs hadm.noUp hadm.spelled)
    (pathIn_straight ho habs hadm.noUp).1 hgoes.dest
    (placeOf_pathIn ho hos habs hadm.noUp hadm.spelled) (by simp [hne]) ht hu

/-- **What a tree holds while assets are placed**, and where one asset may make a difference. -/
theorem placeOne_stocked {r : Report} {w w' : World} {result : Except Failure Report}
    (hstocked : Stocked source output b w.tree)
    (hadm : Path.isAbsolute asset = false → Admissible source output m asset)
    (hrun : (placeOne source output asset r).runOn w = (result, w')) :
    Stocked source output b w'.tree ∧ Moved source output [asset] w.tree w'.tree := by
  by_cases h : judge w.tree source output asset = .ok .allowed
  · have habs := (judge_eq_allowed_iff.1 h).1
    have hadm := hadm habs
    have hgoes := goes_of_allowed hs hss ho hstocked.free hadm.noUp hadm.spelled h
    have hproper := (placeOne_kept source output asset r hstocked.proper).proper
    rw [hrun] at hproper
    obtain ⟨base, events, -, -, hplace⟩ := runOn_placeOne_of_allowed r hstocked.free hadm.noUp h
    rw [hrun] at hplace
    obtain ⟨-, rfl⟩ := Prod.mk.inj hplace
    have hmeets := (Restocked.refl (m := m) (z := w.tree) hstocked.free).meets hstocked hstocked hadm hgoes
    obtain ⟨-, hrenewed⟩ := renewed_of_allowed ho hos hne hs hss hstocked.free hadm h hmeets rfl rfl
    refine ⟨hstocked.renews hadm hgoes hproper hrenewed.left, fun k => ?_⟩
    by_cases hD : Path.names output ++ pieces asset <+: k
    · exact .inr (.inr ⟨asset, List.mem_singleton_self _, habs, hgoes.apart, hD⟩)
    · rcases hrenewed.left.outside k hD with hsame | ⟨hnone, hmade, -⟩
      · exact .inl hsame
      · exact .inr (.inl ⟨hnone, hmade⟩)
  · have htree := placeOne_of_not_allowed r h
    rw [hrun] at htree
    rw [htree]
    exact ⟨hstocked, .refl w.tree⟩

/-- **One asset in both runs** meets the same fate. -/
theorem placeOne_again (he : e ≠ none) (hm : ¬ Path.names output <+: m) {r ru r' : Report}
    {w wu w' : World} (hstocked : Stocked source output b w.tree)
    (hz : Stocked source output b z) (hre : Restocked output m e z b w.tree wu.tree)
    (hadm : Path.isAbsolute asset = false → Admissible source output m asset)
    (hplaced : ru.placed = r.placed) (hskipped : ru.skipped = r.skipped)
    (hrun : (placeOne source output asset r).runOn w = (.ok r', w')) :
    ∃ ru' wu', (placeOne source output asset ru).runOn wu = (.ok ru', wu')
      ∧ ru'.placed = r'.placed ∧ ru'.skipped = r'.skipped
      ∧ Restocked output m e z b w'.tree wu'.tree := by
  obtain ⟨verdict, hjudge⟩ := exists_verdict hrun
  obtain ⟨verdict', hjudge', hallowed⟩ := judge_again hs hss ho hstocked hre hadm hjudge
  by_cases h : verdict = .allowed
  · subst h
    rw [hallowed.2 rfl] at hjudge'
    have hadm := hadm (judge_eq_allowed_iff.1 hjudge).1
    have hgoes := goes_of_allowed hs hss ho hstocked.free hadm.noUp hadm.spelled hjudge
    obtain ⟨base, events, hb, hb', hplace⟩ :=
      runOn_placeOne_of_allowed r hstocked.free hadm.noUp hjudge
    obtain ⟨baseu, eventsu, hbu, hbu', hplaceu⟩ :=
      runOn_placeOne_of_allowed ru hre.free hadm.noUp hjudge'
    rcases hrt : (renew (pathIn source asset) (pathIn output asset)).runOn w.tree with ⟨rc, t1⟩
    rcases hru : (renew (pathIn source asset) (pathIn output asset)).runOn wu.tree with ⟨rc', u1⟩
    -- in both runs the asset is renewed, from the same source and with the same outcome
    obtain ⟨hsame, hrenewed⟩ := renewed_of_allowed ho hos hne hs hss hstocked.free hadm hjudge
      (hre.meets hstocked hz hadm hgoes) hrt hru
    rw [hrun, hrt] at hplace
    obtain ⟨hr', rfl⟩ := Prod.mk.inj hplace
    obtain ⟨ru', hru', hplaced', hskipped'⟩ := reported_again asset hsame
      (hbu.trans (hplaced.trans hb.symm)) (hbu'.trans (hskipped.trans hb'.symm)) hr'.symm
    rw [hplaceu, hru]
    exact ⟨ru', _, by rw [hru'], hplaced', hskipped', hre.renewed he
      (fun hD => hm ((List.prefix_append ..).trans hD)) hgoes.nameable hrenewed⟩
  · have h' : verdict' ≠ .allowed := fun e => h (hallowed.1 e)
    obtain ⟨events, hskip⟩ := runOn_placeOne_of_skipped r hjudge h
    obtain ⟨eventsu, hskipu⟩ := runOn_placeOne_of_skipped ru hjudge' h'
    rw [hrun] at hskip
    cases hskip
    refine ⟨_, _, hskipu, ?_, ?_, hre⟩
    · exact hplaced
    · simp [Report.skip, hskipped]

/-! ## §5. All assets. -/

theorem placeFrom_stocked (total : Nat) :
    ∀ {assets : List Text} {done : Nat} {r : Report} {w w' : World} {result : Except Failure Report},
      Stocked source output b w.tree →
      (∀ asset ∈ assets, Path.isAbsolute asset = false → Admissible source output m asset) →
      (placeFrom source output total done r assets).runOn w = (result, w') →
      Stocked source output b w'.tree ∧ Moved source output assets w.tree w'.tree
  | [], _, _, _, _, _, hstocked, _, hrun => by
    cases hrun
    exact ⟨hstocked, .refl _⟩
  | asset :: assets, done, r, w, w', result, hstocked, hadm, hrun => by
    unfold placeFrom at hrun
    rw [Action.runOn_bind] at hrun
    rcases hone : (placeOne source output asset r).runOn w with ⟨result1, w1⟩
    obtain ⟨hstocked1, hmoved1⟩ :=
      placeOne_stocked ho hos hne hs hss hstocked (hadm asset (List.mem_cons_self ..)) hone
    have hfirst : Moved source output (asset :: assets) w.tree w1.tree :=
      hmoved1.mono fun a ha => List.mem_singleton.1 ha ▸ List.mem_cons_self ..
    rw [hone] at hrun
    cases result1 with
    | error failure =>
      cases hrun
      exact ⟨hstocked1, hfirst⟩
    | ok r1 =>
      dsimp only at hrun
      rw [Action.runOn_bind, Action.runOn_note] at hrun
      -- the note between two assets leaves the tree as it is
      obtain ⟨v, hv, hrun⟩ : ∃ v : World, v.tree = w1.tree ∧
          (placeFrom source output total (done + 1) r1 assets).runOn v = (result, w') := by
        refine ⟨_, ?_, hrun⟩
        rfl
      rw [← hv] at hstocked1 hfirst
      obtain ⟨hstocked', hmoved'⟩ :=
        placeFrom_stocked total hstocked1 (fun a ha => hadm a (List.mem_cons_of_mem _ ha)) hrun
      exact ⟨hstocked', hfirst.trans (hmoved'.mono fun a => List.mem_cons_of_mem _)⟩

/-- The remaining assets in both runs. -/
theorem placeFrom_again (total : Nat) (he : e ≠ none) (hm : ¬ Path.names output <+: m)
    (hz : Stocked source output b z) :
    ∀ {assets : List Text} {done : Nat} {r ru r' : Report} {w wu w' : World},
      Stocked source output b w.tree → Restocked output m e z b w.tree wu.tree →
      (∀ asset ∈ assets, Path.isAbsolute asset = false → Admissible source output m asset) →
      ru.placed = r.placed → ru.skipped = r.skipped →
      (placeFrom source output total done r assets).runOn w = (.ok r', w') →
      ∃ ru' wu', (placeFrom source output total done ru assets).runOn wu = (.ok ru', wu')
        ∧ ru'.placed = r'.placed ∧ ru'.skipped = r'.skipped
        ∧ Restocked output m e z b w'.tree wu'.tree
  | [], _, _, ru, _, _, wu, _, _, hre, _, hplaced, hskipped, hrun => by
    cases hrun
    exact ⟨ru, wu, rfl, hplaced, hskipped, hre⟩
  | asset :: assets, done, r, ru, r', w, wu, w', hstocked, hre, hadm, hplaced, hskipped, hrun => by
    unfold placeFrom at hrun ⊢
    rw [Action.runOn_bind] at hrun ⊢
    rcases hone : (placeOne source output asset r).runOn w with ⟨result1, w1⟩
    have hfirst := hadm asset (List.mem_cons_self ..)
    obtain ⟨hstocked1, -⟩ := placeOne_stocked ho hos hne hs hss hstocked hfirst hone
    rw [hone] at hrun
    cases result1 with
    | error failure => cases hrun
    | ok r1 =>
      obtain ⟨ru1, wu1, honeu, hplaced1, hskipped1, hre1⟩ :=
        placeOne_again ho hos hne hs hss he hm hstocked hz hre hfirst hplaced hskipped hone
      rw [honeu]
      dsimp only at hrun ⊢
      rw [Action.runOn_bind, Action.runOn_note] at hrun ⊢
      refine placeFrom_again total he hm hz ?_ ?_ (fun a ha => hadm a (List.mem_cons_of_mem _ ha)) hplaced1
        hskipped1 hrun
      · exact hstocked1
      · exact hre1

/-- What a tree holds when assets have been placed, and where it may differ from what it was. -/
theorem place_stocked {assets : List Text} {result : Except Failure Report} {w w' : World}
    (hproper : Proper w.tree) (hfree : LinkFree w.tree)
    (hadm : ∀ asset ∈ assets, Path.isAbsolute asset = false → Admissible source output m asset)
    (hrun : (place assets source output).runOn w = (result, w')) :
    Stocked source output w.tree w'.tree ∧ Moved source output assets w.tree w'.tree := by
  have hstart : Stocked source output w.tree w.tree := .refl hproper hfree
  unfold place at hrun
  by_cases hnil : assets = []
  · rw [if_pos hnil, Action.runOn_bind, Action.runOn_log] at hrun
    cases hrun
    exact ⟨hstart, .refl w.tree⟩
  · rw [if_neg hnil, Action.runOn_bind] at hrun
    rcases hfrom : (placeFrom source output assets.length 0 .empty assets).runOn w with ⟨result1, w1⟩
    have hplaced := placeFrom_stocked ho hos hne hs hss assets.length hstart hadm hfrom
    rw [hfrom] at hrun
    cases result1 with
    | error failure =>
      cases hrun
      exact hplaced
    | ok r1 =>
      dsimp only at hrun
      rw [Action.runOn_bind, Action.runOn_log] at hrun
      cases hrun
      exact hplaced

/-- **Placing assets again** gives the same report and, the manifest apart, the same tree. -/
theorem place_again (he : e ≠ none) (hm : ¬ Path.names output <+: m) {assets : List Text}
    {report : Report} {w wu w' : World} (hproper : Proper w.tree) (hfree : LinkFree w.tree)
    (hadm : ∀ asset ∈ assets, Path.isAbsolute asset = false → Admissible source output m asset)
    (hre : Restocked output m e w'.tree w.tree w.tree wu.tree)
    (hrun : (place assets source output).runOn w = (.ok report, w')) :
    ∃ reportu wu', (place assets source output).runOn wu = (.ok reportu, wu')
      ∧ reportu.placed = report.placed ∧ reportu.skipped = report.skipped
      ∧ Restocked output m e w'.tree w.tree w'.tree wu'.tree := by
  obtain ⟨hstocked, -⟩ := place_stocked ho hos hne hs hss hproper hfree hadm hrun
  unfold place at hrun ⊢
  by_cases hnil : assets = []
  · rw [if_pos hnil] at hrun ⊢
    rw [Action.runOn_bind, Action.runOn_log] at hrun ⊢
    cases hrun
    exact ⟨_, _, rfl, rfl, rfl, hre⟩
  · rw [if_neg hnil] at hrun ⊢
    rw [Action.runOn_bind] at hrun ⊢
    rcases hfrom : (placeFrom source output assets.length 0 .empty assets).runOn w with ⟨result, w1⟩
    rw [hfrom] at hrun
    cases result with
    | error failure => cases hrun
    | ok r1 =>
      dsimp only at hrun
      rw [Action.runOn_bind, Action.runOn_log] at hrun
      cases hrun
      -- the second run meets the same fates, asset by asset
      obtain ⟨ru1, wu1, hfromu, hplaced, hskipped, hre1⟩ :=
        placeFrom_again ho hos hne hs hss assets.length he hm hstocked (Stocked.refl hproper hfree) hre
          hadm rfl rfl hfrom
      rw [hfromu]
      exact ⟨ru1, _, rfl, hplaced, hskipped, hre1⟩

end

end Assets

end ModuleBuild
