/-
  ModuleBuild.Proofs.Output.Reporting
  ───────────────────────────────────
  **WHAT A REPORT ON ASSETS SAYS.**

  Each asset meets the tree that the one before it has left, and has a fate
  there: its destination is removed or not, and then it is placed or skipped.
  The report is the fates of the assets, in their order.  A destination that
  was removed stays reported when the copy after it is refused, so a skipped
  asset can have taken something away.

  Main results:
    * `placeOne_fate` — what a step does is a fate of its asset;
    * `placeFrom_course` — a run is a course of fates, and reports them;
    * `place_reports` — what the report on all assets says about them.
-/
import ModuleBuild.Proofs.Output.PlacedAgain

namespace ModuleBuild

open FileTree Edit

namespace Assets

/-! ## §1. Fates. -/

/-- What became of an asset: the tree that it met and the one that it left, whether its destination
was removed, and whether it was placed. -/
structure Fate where
  asset : Text
  before : FileTree
  after : FileTree
  cleared : Bool
  placed : Bool

/-- The report on fates. -/
def reportOn (fates : List Fate) : Report where
  placed := (fates.filter (·.placed)).map (·.asset)
  replaced := (fates.filter (·.cleared)).map (·.asset)
  skipped := (fates.filter (! ·.placed)).map (·.asset)

/-- A report followed by another. -/
def Report.append (r r' : Report) : Report where
  placed := r.placed ++ r'.placed
  replaced := r.replaced ++ r'.replaced
  skipped := r.skipped ++ r'.skipped

theorem Report.append_assoc (r r' r'' : Report) :
    (r.append r').append r'' = r.append (r'.append r'') := by
  simp [Report.append]

theorem Report.append_empty (r : Report) : r.append .empty = r := by
  simp [Report.append, Report.empty]

theorem reportOn_append (fates fates' : List Fate) :
    reportOn (fates ++ fates') = (reportOn fates).append (reportOn fates') := by
  simp [reportOn, Report.append]

variable {source output asset : Text}

/-- An asset is allowed where it is met. -/
def Fate.Allowed (source output : Text) (f : Fate) : Prop :=
  judge f.before source output f.asset = .ok .allowed

/-- Whether something lies at the destination of an asset where it is met. -/
def Fate.taken (output : Text) (f : Fate) : Bool :=
  f.before.pathOccupied (pathIn output f.asset)

/-- What is true of the fate of an asset. -/
structure IsFate (source output : Text) (f : Fate) : Prop where
  /-- It is what the step on the asset does and reports. -/
  step : ∃ r events events', (placeOne source output f.asset r).runOn ⟨f.before, events⟩
    = (.ok (r.append (reportOn [f])), ⟨f.after, events'⟩)
  /-- What is placed is allowed, and whatever lies at its destination is removed before. -/
  placed : f.placed = true → f.Allowed source output ∧ (f.taken output = true → f.cleared = true)
  /-- What is removed was there. -/
  cleared : f.cleared = true → f.Allowed source output ∧ f.taken output = true
  /-- An asset that is not allowed changes nothing. -/
  same : ¬ f.Allowed source output → f.after = f.before
  /-- One that is allowed changes its destination and the way there only, and nothing is taken away
  where nothing was. -/
  copied : f.Allowed source output →
    Copied (pathIn output f.asset) f.before (f.placed = true) f.after
      ∧ (f.taken output = false → Extends f.before f.after)

/-- Fates one after the other: each asset meets the tree that the one before it has left. -/
def Course : FileTree → List Fate → FileTree → Prop
  | t, [], t' => t' = t
  | t, f :: fates, t' => f.before = t ∧ Course f.after fates t'

/-! ## §2. One asset. -/

/-- What clearing a destination and copying an asset come to: a failure that is not of the system, or a
report on whether something was removed and whether the asset is placed. -/
theorem copy_reports (source output asset : Text) (r : Report) (w : World) :
    match (copy source output asset r).runOn w with
    | (.ok r', w') => ∃ cleared placed : Bool,
        r' = r.append (reportOn [⟨asset, w.tree, w'.tree, cleared, placed⟩]) ∧
        (Places r (.ok r') ↔ placed = true) ∧
        (cleared = true → w.tree.pathOccupied (pathIn output asset) = true) ∧
        (placed = true → w.tree.pathOccupied (pathIn output asset) = true → cleared = true)
    | (.error failure, _) => failure.isSystemFault = false := by
  have hplaced : ∀ r' : Report, Places r (.ok r') ↔ r'.placed ≠ r.placed := fun r' =>
    ⟨fun ⟨_, h, hne⟩ => by cases h; exact hne, fun h => ⟨r', rfl, h⟩⟩
  rcases tree_clear (pathIn output asset) w with
    ⟨hfree, hclear⟩ | ⟨hocc, rc, t1, events, -, hclear⟩
  · -- nothing is removed
    obtain ⟨events, hcopy⟩ := runOn_copy_of_clear source r hclear
    rw [hcopy, if_neg Bool.false_ne_true]
    rcases (copyPath (pathIn source asset) (pathIn output asset)).runOn w.tree with ⟨failure | x, t'⟩
    · dsimp only [reported]
      cases hsystem : failure.isSystemFault with
      | false => exact hsystem
      | true =>
        refine ⟨false, false, ?_, ?_, by simp, by simp⟩
        · simp [reportOn, Report.append, Report.skip]
        · simp [hplaced, Report.skip]
    · refine ⟨false, true, ?_, ?_, by simp, fun _ hocc => ?_⟩
      · simp [reportOn, Report.append, Report.place]
      · simp [hplaced, Report.place]
      · rw [hfree] at hocc
        cases hocc
  · cases rc with
    | error failure =>
      -- the removal is refused
      unfold copy
      dsimp only
      rw [Action.runOn_bind, runOn_attempt, hclear]
      dsimp only [Except.map]
      cases hsystem : failure.isSystemFault with
      | false => exact hsystem
      | true =>
        refine ⟨false, false, ?_, ?_, by simp, by simp⟩
        · simp [reportOn, Report.append, Report.skip]
        · simp [hplaced, Report.skip]
    | ok u =>
      obtain ⟨events', hcopy⟩ := runOn_copy_of_clear source r hclear
      rw [hcopy, if_pos rfl]
      rcases (copyPath (pathIn source asset) (pathIn output asset)).runOn t1 with ⟨failure | x, t'⟩
      · dsimp only [reported]
        cases hsystem : failure.isSystemFault with
        | false => exact hsystem
        | true =>
          refine ⟨true, false, ?_, ?_, fun _ => hocc, by simp⟩
          · simp [reportOn, Report.append, Report.skip, Report.replace]
          · simp [hplaced, Report.skip, Report.replace]
      · refine ⟨true, true, ?_, ?_, fun _ => hocc, fun _ _ => rfl⟩
        · simp [reportOn, Report.append, Report.place, Report.replace]
        · simp [hplaced, Report.place, Report.replace]

/-- **What a step does is a fate of its asset**, or it fails without a verdict or with a failure that is
not of the system. -/
theorem placeOne_fate (source output asset : Text) (r : Report) {w : World} (hproper : Proper w.tree) :
    match (placeOne source output asset r).runOn w with
    | (.ok r', w') => ∃ f : Fate, f.asset = asset ∧ f.before = w.tree ∧ f.after = w'.tree ∧
        r' = r.append (reportOn [f]) ∧ IsFate source output f
    | (.error failure, _) =>
      judge w.tree source output asset = .error failure ∨ failure.isSystemFault = false := by
  by_cases hallowed : judge w.tree source output asset = .ok .allowed
  · rw [placeOne_of_allowed r hallowed]
    have hreports := copy_reports source output asset r w
    rcases hrun : (copy source output asset r).runOn w with ⟨failure | r', w'⟩
    · rw [hrun] at hreports
      exact .inr hreports
    · rw [hrun] at hreports
      obtain ⟨cleared, placed, rfl, hplaces, htaken, hcleared⟩ := hreports
      refine ⟨⟨asset, w.tree, w'.tree, cleared, placed⟩, rfl, rfl, rfl, rfl, ?_⟩
      -- the copy is reported as what it did to the tree
      have hcopied := copy_copied hproper hrun
      rw [hplaces] at hcopied
      refine ⟨⟨r, w.events, w'.events, ?_⟩, fun h => ⟨hallowed, hcleared h⟩,
        fun h => ⟨hallowed, htaken h⟩, fun h => absurd hallowed h,
        fun _ => ⟨hcopied, hcopied.extends⟩⟩
      rw [placeOne_of_allowed r hallowed, hrun]
  · cases hjudge : judge w.tree source output asset with
    | error failure =>
      unfold placeOne
      rw [Action.runOn_bind, Action.runOn_ask, hjudge]
      exact .inl rfl
    | ok verdict =>
      have hverdict : verdict ≠ .allowed := by
        rintro rfl
        exact hallowed hjudge
      obtain ⟨events, hrun⟩ := runOn_placeOne_of_skipped r hjudge hverdict
      rw [hrun]
      have hskip : r.skip asset = r.append (reportOn [⟨asset, w.tree, w.tree, false, false⟩]) := by
        simp [reportOn, Report.append, Report.skip]
      refine ⟨⟨asset, w.tree, w.tree, false, false⟩, rfl, rfl, rfl, hskip, ?_⟩
      refine ⟨⟨r, w.events, events, ?_⟩, by simp, by simp, fun _ => rfl, fun h => absurd h hallowed⟩
      rw [hrun, hskip]

/-! ## §3. One asset after the other. -/

theorem IsFate.proper {f : Fate} (h : IsFate source output f) (hproper : Proper f.before) :
    Proper f.after := by
  by_cases hallowed : f.Allowed source output
  · exact (h.copied hallowed).1.proper hproper
  · rw [h.same hallowed]
    exact hproper

/-- A step that fails with a failure. -/
def FailsAt (source output asset : Text) (t : FileTree) (failure : Failure) : Prop :=
  ∃ r events, ((placeOne source output asset r).runOn ⟨t, events⟩).1 = .error failure

/-- A step that fails has no verdict, or a failure that is not of the system. -/
theorem FailsAt.reason {t : FileTree} {failure : Failure} (h : FailsAt source output asset t failure)
    (hproper : Proper t) :
    judge t source output asset = .error failure ∨ failure.isSystemFault = false := by
  obtain ⟨r, events, hfails⟩ := h
  have hstep := placeOne_fate source output asset r (w := ⟨t, events⟩) hproper
  rcases hrun : (placeOne source output asset r).runOn ⟨t, events⟩ with ⟨failure' | r', w'⟩
  · rw [hrun] at hfails hstep
    cases hfails
    exact hstep
  · rw [hrun] at hfails
    cases hfails

/-- **A run is a course of fates, and reports them.**  If it fails, it is a course up to the asset that
it fails at. -/
theorem placeFrom_course (source output : Text) (total : Nat) :
    ∀ (assets : List Text) (done : Nat) (r : Report) (w : World), Proper w.tree →
      match (placeFrom source output total done r assets).runOn w with
      | (.ok r', w') => ∃ fates : List Fate, fates.map (·.asset) = assets ∧
          r' = r.append (reportOn fates) ∧ Course w.tree fates w'.tree ∧
          ∀ f ∈ fates, IsFate source output f
      | (.error failure, _) => ∃ (fates : List Fate) (asset : Text) (rest : List Text) (t : FileTree),
          fates.map (·.asset) ++ asset :: rest = assets ∧ Course w.tree fates t ∧
          (∀ f ∈ fates, IsFate source output f) ∧ FailsAt source output asset t failure
  | [], _, r, _, _ => ⟨[], rfl, r.append_empty.symm, rfl, nofun⟩
  | asset :: assets, done, r, w, hproper => by
    have hstep := placeOne_fate source output asset r hproper
    unfold placeFrom
    rw [Action.runOn_bind]
    rcases hrun : (placeOne source output asset r).runOn w with ⟨failure | r1, w1⟩
    · exact ⟨[], asset, assets, w.tree, rfl, rfl, nofun, r, w.events, by rw [hrun]⟩
    · rw [hrun] at hstep
      obtain ⟨f, rfl, hbefore, hafter, rfl, hf⟩ := hstep
      dsimp only
      rw [Action.runOn_bind, Action.runOn_note]
      dsimp only
      have hproper1 : Proper w1.tree := hafter ▸ hf.proper (hbefore ▸ hproper)
      -- the fate of the first asset stands before the course of the others
      have hrest := placeFrom_course source output total assets (done + 1) (r.append (reportOn [f]))
        ⟨w1.tree, w1.events ++ [.stageAdvanced (Binary64.percentOf (done + 1) total)]⟩ hproper1
      have hall : ∀ {fates : List Fate}, (∀ g ∈ fates, IsFate source output g) →
          ∀ g ∈ f :: fates, IsFate source output g := by
        rintro fates hfates g hg
        rcases List.mem_cons.1 hg with rfl | hg
        · exact hf
        · exact hfates g hg
      split at hrest
      · rename_i r' w' hrun
        obtain ⟨fates, hassets, rfl, hcourse, hfates⟩ := hrest
        rw [hrun]
        refine ⟨f :: fates, by rw [List.map_cons, hassets], ?_, ⟨hbefore, hafter ▸ hcourse⟩, hall hfates⟩
        rw [Report.append_assoc, ← reportOn_append, List.singleton_append]
      · rename_i failure w' hrun
        obtain ⟨fates, last, rest, t, hassets, hcourse, hfates, hwhy⟩ := hrest
        rw [hrun]
        exact ⟨f :: fates, last, rest, t, by rw [List.map_cons, List.cons_append, hassets],
          ⟨hbefore, hafter ▸ hcourse⟩, hall hfates, hwhy⟩

/-! ## §4. All of them. -/

/-- If no allowed asset is refused, exactly the assets that are placed in place of something are
reported as replaced, and a skipped one leaves the tree as it is. -/
theorem replaced_of_not_refused {fates : List Fate} (hfates : ∀ f ∈ fates, IsFate source output f)
    (hplaced : ∀ f ∈ fates, f.Allowed source output → f.placed = true) :
    (reportOn fates).replaced
        = ((fates.filter (·.placed)).filter (·.taken output)).map (·.asset) ∧
      (reportOn fates).replaced.Sublist (reportOn fates).placed ∧
      ∀ f ∈ fates, f.placed = false → f.after = f.before := by
  have hreplaced : (reportOn fates).replaced
      = ((fates.filter (·.placed)).filter (·.taken output)).map (·.asset) := by
    unfold reportOn
    dsimp only
    rw [List.filter_filter]
    congr 1
    refine List.filter_congr fun f hf => ?_
    have h := hfates f hf
    rw [Bool.eq_iff_iff, Bool.and_eq_true]
    exact ⟨fun hc => ⟨(h.cleared hc).2, hplaced f hf (h.cleared hc).1⟩, fun ⟨ht, hp⟩ => (h.placed hp).2 ht⟩
  refine ⟨hreplaced, ?_, fun f hf hskipped => ?_⟩
  · rw [hreplaced]
    exact (List.filter_sublist).map _
  · refine (hfates f hf).same fun hallowed => ?_
    rw [hplaced f hf hallowed] at hskipped
    cases hskipped

/-- All assets are a course of fates, or a course up to the asset at which the run fails. -/
theorem place_course (assets : List Text) (source output : Text) {w : World} (hproper : Proper w.tree) :
    match (place assets source output).runOn w with
    | (.ok report, w') => ∃ fates : List Fate, fates.map (·.asset) = assets ∧
        report = reportOn fates ∧ Course w.tree fates w'.tree ∧ ∀ f ∈ fates, IsFate source output f
    | (.error failure, _) => ∃ (fates : List Fate) (asset : Text) (rest : List Text) (t : FileTree),
        fates.map (·.asset) ++ asset :: rest = assets ∧ Course w.tree fates t ∧
        (∀ f ∈ fates, IsFate source output f) ∧ FailsAt source output asset t failure := by
  unfold place
  by_cases hnil : assets = []
  · rw [if_pos hnil, hnil]
    exact ⟨[], rfl, rfl, rfl, nofun⟩
  · rw [if_neg hnil, Action.runOn_bind]
    have hall := placeFrom_course source output assets.length assets 0 .empty w hproper
    rcases hrun : (placeFrom source output assets.length 0 .empty assets).runOn w with
      ⟨failure | report, w'⟩
    · rw [hrun] at hall
      exact hall
    · rw [hrun] at hall
      exact hall

/-- Each tree of a course is proper. -/
theorem Course.proper :
    ∀ {fates : List Fate} {t t' : FileTree}, Proper t → (∀ f ∈ fates, IsFate source output f) →
      Course t fates t' → Proper t'
  | [], _, _, hproper, _, rfl => hproper
  | f :: _, _, _, hproper, hfates, ⟨hbefore, hcourse⟩ =>
    hcourse.proper ((hfates f (List.mem_cons_self ..)).proper (hbefore ▸ hproper))
      fun g hg => hfates g (List.mem_cons_of_mem _ hg)

/-- **What the report on assets says.**  Each asset has a fate, in the tree that the assets before it
have left: it is placed or skipped, and the two lists keep the order of the assets.  Replaced are those
whose destination was removed: something lay there, and it is removed before anything is placed there.
A skipped asset that is not allowed leaves the tree; one whose copy is refused has changed nothing but
its destination and the way there, and has taken nothing away if nothing was there.  So if no copy is
refused, replaced are just the placed assets that met something, and skipped ones change nothing.

If there is no report, this is so up to an asset on which there is no verdict, or a failure that is not
of the system. -/
theorem place_reports (assets : List Text) (source output : Text) {w : World}
    (hproper : Proper w.tree) :
    match (place assets source output).runOn w with
    | (.ok report, w') => ∃ fates : List Fate, fates.map (·.asset) = assets ∧
        report = reportOn fates ∧ Course w.tree fates w'.tree ∧
        (∀ f ∈ fates, IsFate source output f) ∧
        ((∀ f ∈ fates, f.Allowed source output → f.placed = true) →
          report.replaced = ((fates.filter (·.placed)).filter (·.taken output)).map (·.asset) ∧
          report.replaced.Sublist report.placed ∧
          ∀ f ∈ fates, f.placed = false → f.after = f.before)
    | (.error failure, _) => ∃ (fates : List Fate) (asset : Text) (rest : List Text) (t : FileTree),
        fates.map (·.asset) ++ asset :: rest = assets ∧ Course w.tree fates t ∧
        (∀ f ∈ fates, IsFate source output f) ∧
        (judge t source output asset = .error failure ∨ failure.isSystemFault = false) := by
  have hcourse := place_course assets source output hproper
  split at hcourse
  · obtain ⟨fates, hassets, hreport, hcourse, hfates⟩ := hcourse
    refine ⟨fates, hassets, hreport, hcourse, hfates, ?_⟩
    rw [hreport]
    exact replaced_of_not_refused hfates
  · obtain ⟨fates, asset, rest, t, hassets, hcourse, hfates, hfails⟩ := hcourse
    exact ⟨fates, asset, rest, t, hassets, hcourse, hfates, hfails.reason (hcourse.proper hproper hfates)⟩

/-! ## §5. An asset in place of an older one. -/

/-- An allowed asset whose destination is cleared: what is reported and left is what the copy comes to,
into the tree without what was there. -/
theorem place_cleared {w : World} {t : FileTree}
    (hjudge : judge w.tree source output asset = .ok .allowed)
    (htaken : w.tree.pathOccupied (pathIn output asset) = true)
    (hremoved : (removePath (pathIn output asset)).runOn w.tree = (.ok (), t)) :
    ((place [asset] source output).runOn w).1
        = reported (Report.empty.replace asset) asset
          ((copyPath (pathIn source asset) (pathIn output asset)).runOn t).1 ∧
      ((place [asset] source output).runOn w).2.tree
        = ((copyPath (pathIn source asset) (pathIn output asset)).runOn t).2 := by
  have hclear : ∃ events, (clear (pathIn output asset)).runOn w = (.ok true, ⟨t, events⟩) := by
    rcases tree_clear (pathIn output asset) w with ⟨hfree, -⟩ | ⟨-, rc, t', events, hrun, hclear⟩
    · rw [htaken] at hfree
      cases hfree
    · rw [hremoved] at hrun
      cases hrun
      exact ⟨events, hclear⟩
  obtain ⟨events, hclear⟩ := hclear
  obtain ⟨events', hcopy⟩ := runOn_copy_of_clear source .empty hclear
  obtain ⟨hresult, htree⟩ := place_singleton source output asset w
  rw [hresult, htree, placeOne_of_allowed .empty hjudge, hcopy]
  exact ⟨rfl, rfl⟩

/-- A source with one asset, and an output that holds something. -/
def oneAsset (thing : Node) (held : Forest) : FileTree where
  top := [("dist", .directory held), ("src", .directory [("a", thing)])]
  workingDir := []

/-- An older file in the place of the asset is removed, whatever the asset is. -/
theorem removePath_oneAsset (thing : Node) :
    (removePath "dist/a").runOn (oneAsset thing [("a", .file [79])]) = (.ok (), oneAsset thing []) := by
  cbv

/-- A file that takes the place of an older one is reported as placed and replaced. -/
theorem place_reports_oneAsset :
    Proper (oneAsset (.file [65]) [("a", .file [79])]) ∧
      ∃ f : Fate, f.asset = "a" ∧ f.before = oneAsset (.file [65]) [("a", .file [79])] ∧
        f.placed = true ∧ f.cleared = true ∧ f.taken "dist" = true := by
  have hproper : Proper (oneAsset (.file [65]) [("a", .file [79])]) := by
    refine proper_of_allNames ?_ (by decide)
    have hnames : (oneAsset (.file [65]) [("a", .file [79])]).top.allNames = ["dist", "a", "src", "a"] := by
      simp [oneAsset, Forest.allNames_cons, Forest.allNames, Node.children]
    rw [hnames]
    decide
  have hsource : pathIn "src" "a" = "src/a" := by decide
  have hdest : pathIn "dist" "a" = "dist/a" := by decide
  have hjudge : judge (oneAsset (.file [65]) [("a", .file [79])]) "src" "dist" "a" = .ok .allowed := by
    rw [judge_eq_allowed_iff, hsource]
    exact ⟨by decide, by cbv, by decide, by cbv, by cbv⟩
  have hcopied : ((copyPath "src/a" "dist/a").runOn (oneAsset (.file [65]) [])).1 = .ok () := by cbv
  obtain ⟨hresult, -⟩ := place_cleared (w := ⟨oneAsset (.file [65]) [("a", .file [79])], []⟩) hjudge
    (by rw [hdest]; cbv) (by rw [hdest]; exact removePath_oneAsset _)
  rw [hsource, hdest, hcopied] at hresult
  have hreports := place_reports ["a"] "src" "dist"
    (w := ⟨oneAsset (.file [65]) [("a", .file [79])], []⟩) hproper
  rcases hrun : (place ["a"] "src" "dist").runOn ⟨oneAsset (.file [65]) [("a", .file [79])], []⟩ with
    ⟨result, w'⟩
  rw [hrun] at hresult hreports
  cases hresult
  obtain ⟨fates, hassets, hreport, hcourse, hfates, -⟩ := hreports
  obtain ⟨f, rfl, hasset⟩ := List.map_eq_singleton_iff.1 hassets
  have hf := hfates f (List.mem_singleton_self f)
  obtain ⟨hbefore, -⟩ := hcourse
  have hplaced : f.placed = true := by
    by_contra hno
    simp [reportOn, hno, Report.place, Report.replace, Report.empty] at hreport
  have hcleared : f.cleared = true := by
    by_contra hno
    simp [reportOn, hno, Report.place, Report.replace, Report.empty] at hreport
  exact ⟨hproper, f, hasset, hbefore, hplaced, hcleared, (hf.cleared hcleared).2⟩

/-- **An asset that is skipped can be reported as replaced**: a link in it leads nowhere, and the file
in its place is gone by then. -/
theorem place_replaces_skipped :
    ((place ["a"] "src" "dist").runOn
        ⟨oneAsset (.directory [("l", .link "nowhere")]) [("a", .file [79])], []⟩).1
        = .ok ⟨[], ["a"], ["a"]⟩ ∧
      (oneAsset (.directory [("l", .link "nowhere")]) [("a", .file [79])]).entryAt? ["dist", "a"]
        = some (.file [79]) ∧
      ((place ["a"] "src" "dist").runOn
        ⟨oneAsset (.directory [("l", .link "nowhere")]) [("a", .file [79])], []⟩).2.tree.entryAt?
          ["dist", "a"] = some .directory := by
  have hsource : pathIn "src" "a" = "src/a" := by decide
  have hdest : pathIn "dist" "a" = "dist/a" := by decide
  have hjudge : judge (oneAsset (.directory [("l", .link "nowhere")]) [("a", .file [79])])
      "src" "dist" "a" = .ok .allowed := by
    rw [judge_eq_allowed_iff, hsource]
    exact ⟨by decide, by cbv, by decide, by cbv, by cbv⟩
  obtain ⟨hresult, htree⟩ := place_cleared
    (w := ⟨oneAsset (.directory [("l", .link "nowhere")]) [("a", .file [79])], []⟩) hjudge
    (by rw [hdest]; cbv) (by rw [hdest]; exact removePath_oneAsset _)
  rw [hresult, htree, hsource, hdest]
  -- both at once, so that the copy is evaluated once
  have hcopy : (isRefusal ((copyPath "src/a" "dist/a").runOn
        (oneAsset (.directory [("l", .link "nowhere")]) [])).1 &&
      ((copyPath "src/a" "dist/a").runOn
        (oneAsset (.directory [("l", .link "nowhere")]) [])).2.entryAt? ["dist", "a"]
          = some .directory) = true := by cbv
  rw [Bool.and_eq_true, decide_eq_true_eq] at hcopy
  rw [reported_of_isRefusal _ _ hcopy.1]
  exact ⟨rfl, rfl, hcopy.2⟩

end Assets

end ModuleBuild
