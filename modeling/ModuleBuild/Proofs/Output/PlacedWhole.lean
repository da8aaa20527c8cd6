/-
  ModuleBuild.Proofs.Output.PlacedWhole
  ─────────────────────────────────────
  **ASSETS THAT ARE PLACED WHOLE.**

  Assets can be listed in any order, twice, or one within another, so what one
  step has placed a later one can remove and place again.  In a tree without
  links, with the sources and the output apart, a step leaves the sources and
  copies from them what it places.  Wherever two assets meet, both copies agree
  there with the sources; so a placed asset stays as in the sources, whatever
  is placed after it.

  A step that skips its asset leaves the tree as it is, unless there was no
  room for the copy: then it may have removed what was there, and may have made
  directories.

  Main results:
    * `IsFate.served` — what a step leaves of the sources, its destination, and the rest;
    * `Course.keeps`, `Course.whole`, `Course.kept` — what a run leaves of them;
    * `place_whole` — what lies in the output after all assets.
-/
import ModuleBuild.Proofs.FileTree.Checking
import ModuleBuild.Proofs.FileTree.InPlace
import ModuleBuild.Proofs.Output.Confined
import ModuleBuild.Proofs.Output.Normalizing
import ModuleBuild.Proofs.Output.Reporting

namespace ModuleBuild

open FileTree Edit

namespace FileTree

/-- One place is at, above or below another. -/
def InLine (l k : Location) : Prop := l <+: k ∨ k <+: l

/-- Places that continue two others, which are apart, are apart. -/
theorem apart_append {l k : Location} (h : ¬ l <+: k ∧ ¬ k <+: l) (m : Location) :
    ¬ l ++ m <+: k ++ m :=
  fun hpre => not_prefix_of_apart h ((List.prefix_append l m).trans hpre)

variable {t t' : FileTree} {source dest : Text}

/-- Room for a copy is a matter of the source and the working directory. -/
theorem RoomFor.of_same (h : RoomFor source dest t) (hdir : t'.workingDir = t.workingDir)
    (hsame : ∀ q, t'.entryAt? (t.endOf source ++ q) = t.entryAt? (t.endOf source ++ q)) :
    RoomFor source dest t' := by
  refine ⟨fun q hq => h.takes q ?_, ?_, ?_⟩
  · rwa [endOf_eq hdir, hsame] at hq
  · unfold absolute
    rw [hdir]
    exact h.above
  · rw [endOf_eq hdir, startOf_eq hdir]
    exact h.start

end FileTree

namespace Assets

variable {source output asset : Text} {b t t' : FileTree} {f : Fate} {fates : List Fate} {k : Location}

/-! ## §1. The places of an asset. -/

/-- The place of an asset in the sources. -/
def sourceOf (source : Text) (b : FileTree) (asset : Text) : Location := b.endOf (pathIn source asset)

/-- The place of an asset in the output. -/
def destOf (output : Text) (b : FileTree) (asset : Text) : Location := b.endOf (pathIn output asset)

/-- An asset has the same names below both directories. -/
theorem endOf_pathIn (habs : Path.isAbsolute asset = false) (hup : Path.up ∉ Path.names asset)
    (dir : Text) : b.endOf (pathIn dir asset) = b.endOf dir ++ (pieces asset).map Utf8.nameForm := by
  rw [pathIn, endOf_normalize, endOf_join_asset habs hup]

/-- The sources and the output do not lie in each other. -/
def RootsApart (source output : Text) (b : FileTree) : Prop :=
  ¬ b.endOf source <+: b.endOf output ∧ ¬ b.endOf output <+: b.endOf source

/-- There is room to copy an asset. -/
def HasSpace (source output : Text) (b : FileTree) (asset : Text) : Prop :=
  RoomFor (pathIn source asset) (pathIn output asset) b

/-! ## §2. One asset. -/

/-- A tree in which assets are placed has the sources of the one before. -/
structure Serving (source : Text) (b t : FileTree) : Prop where
  proper : Proper t
  free : LinkFree t
  workingDir : t.workingDir = b.workingDir
  source : ∀ q, t.entryAt? (b.endOf source ++ q) = b.entryAt? (b.endOf source ++ q)

/-- An asset that is allowed is there, and has a place in the output apart from it. -/
theorem Serving.supplied (h : Serving source b t) (hgenuine : Genuine b)
    (hapart : RootsApart source output b) (hup : Path.up ∉ Path.names asset)
    (hallowed : judge t source output asset = .ok .allowed) :
    Supplied (pathIn source asset) (pathIn output asset) t ∧
      t.entryAt? (t.startOf (pathIn output asset)) = some .directory := by
  obtain ⟨habs, -, -, hexists, hholds⟩ := judge_eq_allowed_iff.1 hallowed
  have hended := ended_pathIn habs hup (pieces_ne_nil_of_allowed hup hallowed)
  have hends : ∀ dir, t.endOf (pathIn dir asset)
      = b.endOf dir ++ (pieces asset).map Utf8.nameForm := fun dir => by
    rw [endOf_eq h.workingDir, endOf_pathIn habs hup]
  constructor
  · refine ⟨h.proper, h.free, hended source, hended output, ?_, ?_, fun q hq m hm => ?_⟩
    · rw [hends, hends]
      exact ⟨apart_append hapart.symm _, apart_append hapart _⟩
    · exact ((hended source).pathExists_iff h.free).1 hexists |>.2
    · rw [hends, List.append_assoc, h.source] at hq
      exact (hgenuine _ hq m (by simp [hm])).1
  · -- a path that lies nowhere has no real path
    have hreal : ∃ real, t.realPath output = .ok real := by
      unfold isWithin at hholds
      cases hreal : t.realPath output with
      | error failure =>
        rw [hreal] at hholds
        cases hholds
      | ok real => exact ⟨real, rfl⟩
    obtain ⟨real, hreal⟩ := hreal
    have hstart : t.startOf (pathIn output asset) = t.startOf output := by
      rw [pathIn, startOf_normalize, startOf_eq_ite, startOf_eq_ite, Path.rootOf_join habs]
    rw [hstart]
    exact isDirectory_startOf h.free hreal

/-- What the step on an asset leaves: the sources; at its destination, the asset if it is placed; and
elsewhere all but missing directories above it.  If it is skipped and there was room, all is left. -/
structure Served (source output : Text) (b : FileTree) (f : Fate) : Prop where
  relative : f.placed = true → Path.isAbsolute f.asset = false
  serving : Serving source b f.after
  outside : f.placed = true → ∀ k, ¬ destOf output b f.asset <+: k →
    f.after.entryAt? k = f.before.entryAt? k
      ∨ f.before.entryAt? k = none ∧ f.after.entryAt? k = some .directory ∧ k <+: destOf output b f.asset
  present : f.placed = true → b.entryAt? (sourceOf source b f.asset) ≠ none
  whole : f.placed = true → ∀ q,
    f.after.entryAt? (destOf output b f.asset ++ q) = b.entryAt? (sourceOf source b f.asset ++ q)
  kept : f.placed = false → ∀ k, ¬ InLine (destOf output b f.asset) k ∨ HasSpace source output b f.asset →
    f.after.entryAt? k = f.before.entryAt? k

/-- An asset that is allowed is copied anew, and is placed if that succeeds. -/
theorem IsFate.renewed (hf : IsFate source output f) (hfree : LinkFree f.before)
    (hup : Path.up ∉ Path.names f.asset) (hallowed : f.Allowed source output) :
    ∃ r, (renew (pathIn source f.asset) (pathIn output f.asset)).runOn f.before = (r, f.after) ∧
      (f.placed = true ↔ r = .ok ()) := by
  obtain ⟨report, events, events', hstep⟩ := hf.step
  obtain ⟨base, events'', hbase, -, hrun⟩ :=
    runOn_placeOne_of_allowed report (w := ⟨f.before, events⟩) hfree hup hallowed
  rw [hstep] at hrun
  obtain ⟨hreport, hworld⟩ := Prod.mk.inj hrun
  refine ⟨((renew (pathIn source f.asset) (pathIn output f.asset)).runOn f.before).1, ?_, ?_⟩
  · exact Prod.ext rfl (congrArg World.tree hworld).symm
  · generalize ((renew (pathIn source f.asset) (pathIn output f.asset)).runOn f.before).1 = r at hreport ⊢
    have hreported : ∀ report', reported base f.asset r = .ok report' →
        (report'.placed = report.placed ++ [f.asset] ∧ r = .ok ())
          ∨ report'.placed = report.placed ∧ r ≠ .ok () := by
      rcases r with failure | u
      · unfold reported
        dsimp only
        split
        · rintro report' ⟨⟩
          exact .inr ⟨hbase, by simp⟩
        · simp
      · rintro report' ⟨⟩
        exact .inl ⟨by simp [Report.place, hbase], rfl⟩
    rcases hreported _ hreport.symm with ⟨hplaced, hr⟩ | ⟨hplaced, hr⟩
    · cases hf' : f.placed <;> simp [Report.append, reportOn, hf', hr] at hplaced ⊢
    · cases hf' : f.placed <;> simp [Report.append, reportOn, hf', hr] at hplaced ⊢

/-- **What the step on an asset leaves**, in a tree that has the sources of the one before. -/
theorem IsFate.served (hf : IsFate source output f) (hup : Path.up ∉ Path.names f.asset)
    (hgenuine : Genuine b) (hapart : RootsApart source output b) (h : Serving source b f.before) :
    Served source output b f := by
  by_cases hallowed : f.Allowed source output
  · obtain ⟨r, hrun, hplaced⟩ := hf.renewed h.free hup hallowed
    obtain ⟨hsupplied, hstart⟩ := h.supplied hgenuine hapart hup hallowed
    have hput := renew_inPlace hsupplied hstart hrun
    have hends : ∀ p, f.before.endOf p = b.endOf p := endOf_eq h.workingDir
    have habs := (judge_eq_allowed_iff.1 hallowed).1
    have hsourceOf : sourceOf source b f.asset = b.endOf source ++ (pieces f.asset).map Utf8.nameForm :=
      endOf_pathIn habs hup source
    have hdestOf : destOf output b f.asset = b.endOf output ++ (pieces f.asset).map Utf8.nameForm :=
      endOf_pathIn habs hup output
    have hsource : ∀ q, f.before.entryAt? (sourceOf source b f.asset ++ q)
        = b.entryAt? (sourceOf source b f.asset ++ q) := fun q => by
      rw [hsourceOf, List.append_assoc, h.source]
    have houtside := hput.outside
    have hpresent := hsupplied.present
    have hsame := hput.same
    rw [hends] at houtside hpresent
    simp only [hends] at hsame
    refine ⟨fun _ => habs, ⟨hput.proper, hput.free, hput.workingDir.trans h.workingDir, fun q => ?_⟩,
      fun _ => houtside, fun _ => ?_, fun hyes q => ?_, fun hno k hk => ?_⟩
    · -- the sources are not in line with the destination
      have hnot : ¬ b.endOf output <+: b.endOf source ++ q := not_prefix_of_apart hapart.symm
      rcases houtside (b.endOf source ++ q) fun hpre => hnot (by
        rw [endOf_pathIn habs hup] at hpre
        exact (List.prefix_append ..).trans hpre) with heq | ⟨-, -, hpre⟩
      · rw [heq, h.source]
      · rw [endOf_pathIn habs hup] at hpre
        exact absurd ((List.prefix_append ..).trans hpre) (not_prefix_of_apart hapart)
    · have hfound := hsource []
      rw [List.append_nil] at hfound
      rw [← hfound]
      exact hpresent
    · exact (hsame (hplaced.1 hyes) q).trans (hsource q)
    · rcases hk with hk | hspace
      · rcases houtside k fun hpre => hk (.inl hpre) with heq | ⟨-, -, hpre⟩
        · exact heq
        · exact absurd (.inr hpre) hk
      · have hroom : RoomFor (pathIn source f.asset) (pathIn output f.asset) f.before :=
          hspace.of_same h.workingDir hsource
        rcases hput.refused hroom with hok | ⟨-, -, hkept⟩
        · rw [hplaced.2 hok] at hno
          cases hno
        · exact hkept k
  · have hskipped : f.placed ≠ true := fun hyes => hallowed (hf.placed hyes).1
    have hsame := hf.same hallowed
    refine ⟨fun hyes => absurd hyes hskipped, by rwa [hsame], fun hyes => absurd hyes hskipped,
      fun hyes => absurd hyes hskipped, fun hyes => absurd hyes hskipped, fun _ k _ => by rw [hsame]⟩

/-! ## §3. One asset after the other. -/

/-- Each step of a course leaves the sources to the next. -/
theorem Course.served (hgenuine : Genuine b) (hapart : RootsApart source output b) :
    ∀ {fates : List Fate} {t t' : FileTree}, Serving source b t →
      (∀ f ∈ fates, IsFate source output f ∧ Path.up ∉ Path.names f.asset) → Course t fates t' →
      Serving source b t' ∧ ∀ f ∈ fates, Served source output b f
  | [], _, _, hserving, _, rfl => ⟨hserving, nofun⟩
  | f :: fates, _, _, hserving, hfates, ⟨hbefore, hcourse⟩ => by
    obtain ⟨hf, hup⟩ := hfates f (List.mem_cons_self ..)
    have hserved := hf.served hup hgenuine hapart (hbefore ▸ hserving)
    obtain ⟨hlast, hall⟩ := Course.served hgenuine hapart hserved.serving
      (fun g hg => hfates g (List.mem_cons_of_mem _ hg)) hcourse
    refine ⟨hlast, fun g hg => ?_⟩
    rcases List.mem_cons.1 hg with rfl | hg
    · exact hserved
    · exact hall g hg

/-- A place that is in line with nothing placed, and with nothing skipped for want of room, is left. -/
theorem Course.kept :
    ∀ {fates : List Fate} {t t' : FileTree}, (∀ f ∈ fates, Served source output b f) →
      (∀ f ∈ fates, InLine (destOf output b f.asset) k →
        f.placed = false ∧ HasSpace source output b f.asset) →
      Course t fates t' → t'.entryAt? k = t.entryAt? k
  | [], _, _, _, _, rfl => rfl
  | f :: fates, _, _, hserved, hk, ⟨hbefore, hcourse⟩ => by
    rw [Course.kept (fun g hg => hserved g (List.mem_cons_of_mem _ hg))
      (fun g hg => hk g (List.mem_cons_of_mem _ hg)) hcourse, ← hbefore]
    have hf := hserved f (List.mem_cons_self ..)
    have hkf := hk f (List.mem_cons_self ..)
    cases hplaced : f.placed with
    | true =>
      have hnot : ¬ InLine (destOf output b f.asset) k := fun hline => by
        rw [hplaced] at hkf
        cases (hkf hline).1
      rcases hf.outside hplaced k fun hpre => hnot (.inl hpre) with heq | ⟨-, -, hpre⟩
      · exact heq
      · exact absurd (.inr hpre) hnot
    | false =>
      refine hf.kept hplaced k ?_
      by_cases hline : InLine (destOf output b f.asset) k
      · exact .inr (hkf hline).2
      · exact .inl hline

/-- An asset is in a tree as in the sources of another. -/
def IsWhole (source output : Text) (b t : FileTree) (asset : Text) : Prop :=
  ∀ q, t.entryAt? (destOf output b asset ++ q) = b.entryAt? (sourceOf source b asset ++ q)

/-- **A step keeps an asset that is whole**, unless it is skipped for want of room. -/
theorem Served.keeps (hf : Served source output b f) (hfup : Path.up ∉ Path.names f.asset)
    (habs : Path.isAbsolute asset = false) (hup : Path.up ∉ Path.names asset)
    (hspace : InLine (destOf output b f.asset) (destOf output b asset) → f.placed = false →
      HasSpace source output b f.asset)
    (h : IsWhole source output b f.before asset) : IsWhole source output b f.after asset := by
  intro q
  cases hplaced : f.placed with
  | false =>
    rw [hf.kept hplaced, h]
    by_cases hline : InLine (destOf output b f.asset) (destOf output b asset)
    · exact .inr (hspace hline hplaced)
    · refine .inl fun hq => hline ?_
      rcases hq with hq | hq
      · exact List.prefix_or_prefix_of_prefix hq (List.prefix_append ..)
      · exact .inr ((List.prefix_append ..).trans hq)
  | true =>
    have hplaces : ∀ {n m : Location}, destOf output b f.asset ++ n = destOf output b asset ++ m →
        sourceOf source b f.asset ++ n = sourceOf source b asset ++ m := by
      intro n m heq
      unfold destOf at heq
      rw [endOf_pathIn (hf.relative hplaced) hfup, endOf_pathIn habs hup, List.append_assoc,
        List.append_assoc, List.append_right_inj] at heq
      unfold sourceOf
      rw [endOf_pathIn (hf.relative hplaced) hfup, endOf_pathIn habs hup, List.append_assoc,
        List.append_assoc, heq]
    by_cases hin : destOf output b f.asset <+: destOf output b asset ++ q
    · -- the step has placed this, too
      obtain ⟨n, hn⟩ := hin
      rw [← hn, hf.whole hplaced, hplaces hn]
    · rcases hf.outside hplaced _ hin with heq | ⟨hnone, -, hpre⟩
      · rw [heq, h]
      · -- it made no directory here: there is one in the sources
        obtain ⟨n, hn⟩ := hpre
        have hne : n ≠ [] := by
          rintro rfl
          rw [List.append_nil] at hn
          exact hin (hn ▸ List.prefix_rfl)
        have hsource := hplaces (n := []) (m := q ++ n) (by
          rw [List.append_nil, ← List.append_assoc]
          exact hn.symm)
        rw [List.append_nil, ← List.append_assoc] at hsource
        have hdir := isDirectory_of_below (hf.present hplaced) (hsource ▸ List.prefix_append _ n)
          fun e => hne (by simpa [e] using hsource)
        rw [← h, hnone] at hdir
        cases hdir

/-- **A run keeps an asset that is whole**, if none in line with it is skipped for want of room. -/
theorem Course.keeps (habs : Path.isAbsolute asset = false) (hup : Path.up ∉ Path.names asset) :
    ∀ {fates : List Fate} {t t' : FileTree},
      (∀ f ∈ fates, Served source output b f ∧ Path.up ∉ Path.names f.asset) →
      (∀ f ∈ fates, InLine (destOf output b f.asset) (destOf output b asset) → f.placed = false →
        HasSpace source output b f.asset) →
      Course t fates t' → IsWhole source output b t asset → IsWhole source output b t' asset
  | [], _, _, _, _, rfl, h => h
  | f :: fates, _, _, hserved, hspace, ⟨hbefore, hcourse⟩, h => by
    obtain ⟨hf, hfup⟩ := hserved f (List.mem_cons_self ..)
    exact hcourse.keeps habs hup (fun g hg => hserved g (List.mem_cons_of_mem _ hg))
      (fun g hg => hspace g (List.mem_cons_of_mem _ hg))
      (hf.keeps hfup habs hup (hspace f (List.mem_cons_self ..)) (hbefore ▸ h))

/-- **What a run has placed is whole in the end.** -/
theorem Course.whole :
    ∀ {fates : List Fate} {t t' : FileTree},
      (∀ f ∈ fates, Served source output b f ∧ Path.up ∉ Path.names f.asset) → Course t fates t' →
      ∀ f ∈ fates, f.placed = true →
        (∀ g ∈ fates, InLine (destOf output b g.asset) (destOf output b f.asset) → g.placed = false →
          HasSpace source output b g.asset) →
        IsWhole source output b t' f.asset
  | first :: fates, _, _, hserved, ⟨_, hcourse⟩, f, hf, hplaced, hspace => by
    have hrest := fun g hg => hserved g (List.mem_cons_of_mem first hg)
    have hspaceRest := fun g hg => hspace g (List.mem_cons_of_mem first hg)
    rcases List.mem_cons.1 hf with rfl | hf
    · obtain ⟨hfirst, hup⟩ := hserved f (List.mem_cons_self ..)
      exact hcourse.keeps (hfirst.relative hplaced) hup hrest hspaceRest (hfirst.whole hplaced)
    · exact Course.whole hrest hcourse f hf hplaced hspaceRest

/-! ## §4. All assets. -/

/-- A step that fails has no verdict, or there was no room for its asset. -/
theorem FailsAt.no_space {failure : Failure} (h : FailsAt source output asset t failure)
    (hserving : Serving source b t) (hup : Path.up ∉ Path.names asset) (hgenuine : Genuine b)
    (hapart : RootsApart source output b) :
    judge t source output asset = .error failure ∨ ¬ HasSpace source output b asset := by
  obtain ⟨report, events, hfails⟩ := h
  cases hjudge : judge t source output asset with
  | error failure' =>
    unfold placeOne at hfails
    rw [Action.runOn_bind, Action.runOn_ask, hjudge] at hfails
    cases hfails
    exact .inl rfl
  | ok verdict =>
    by_cases hallowed : verdict = .allowed
    · subst hallowed
      -- an asset that is allowed and has space is renewed without a failure
      refine .inr fun hspace => ?_
      obtain ⟨hsupplied, hstart⟩ := hserving.supplied hgenuine hapart hup hjudge
      obtain ⟨base, events', -, -, hrun⟩ :=
        runOn_placeOne_of_allowed report (w := ⟨t, events⟩) hserving.free hup hjudge
      rw [hrun] at hfails
      have hroom : RoomFor (pathIn source asset) (pathIn output asset) t := by
        refine hspace.of_same hserving.workingDir fun q => ?_
        rw [endOf_pathIn (judge_eq_allowed_iff.1 hjudge).1 hup, List.append_assoc, hserving.source]
      dsimp only at hfails
      rcases hrenew : (renew (pathIn source asset) (pathIn output asset)).runOn t with ⟨r, t'⟩
      rw [hrenew] at hfails
      rcases (renew_inPlace hsupplied hstart hrenew).refused hroom with
        rfl | ⟨⟨failure', rfl, hsystem⟩, -⟩
      · cases hfails
      · rw [reported, if_pos hsystem] at hfails
        cases hfails
    · obtain ⟨events', hrun⟩ := runOn_placeOne_of_skipped report (w := ⟨t, events⟩) hjudge hallowed
      rw [hrun] at hfails
      cases hfails

theorem serving_start (hproper : Proper b) (hfree : LinkFree b) : Serving source b b :=
  ⟨hproper, hfree, rfl, fun _ => rfl⟩

/-- **What lies in the output after all assets**, in a tree without links, with the sources and the
output apart and no asset whose path leads up, whatever the order of the assets, and however they repeat
and nest.  The sources are left.  A placed asset is in the output as in the sources: what is there is
there, with the same content, and nothing else.  A place that is in line with no placed asset is left.

Both hold unless an asset in line with the place is skipped for want of room: the system does not take
the path of something that is read or made for it, or its destination holds the directory that its path
starts from.  If there is no report, there was no verdict on an asset, or no room for it. -/
theorem place_whole (assets : List Text) (source output : Text) {w : World} (hproper : Proper w.tree)
    (hgenuine : Genuine w.tree) (hfree : LinkFree w.tree) (hapart : RootsApart source output w.tree)
    (hup : ∀ asset ∈ assets, Path.up ∉ Path.names asset) :
    match (place assets source output).runOn w with
    | (.ok report, w') =>
        (∀ k, w.tree.endOf source <+: k → w'.tree.entryAt? k = w.tree.entryAt? k) ∧
        (∀ p ∈ report.placed,
          (∀ a ∈ report.skipped, InLine (destOf output w.tree a) (destOf output w.tree p) →
            HasSpace source output w.tree a) →
          w.tree.entryAt? (sourceOf source w.tree p) ≠ none ∧
            ∀ q, w'.tree.entryAt? (destOf output w.tree p ++ q)
              = w.tree.entryAt? (sourceOf source w.tree p ++ q)) ∧
        ∀ k, (∀ p ∈ report.placed, ¬ InLine (destOf output w.tree p) k) →
          (∀ a ∈ report.skipped, InLine (destOf output w.tree a) k → HasSpace source output w.tree a) →
          w'.tree.entryAt? k = w.tree.entryAt? k
    | (.error failure, _) => ∃ (fates : List Fate) (asset : Text) (rest : List Text) (t : FileTree),
        fates.map (·.asset) ++ asset :: rest = assets ∧ Course w.tree fates t ∧
        (∀ f ∈ fates, IsFate source output f) ∧
        (judge t source output asset = .error failure ∨ ¬ HasSpace source output w.tree asset) := by
  have hcourse := place_course assets source output hproper
  rcases hrun : (place assets source output).runOn w with ⟨failure | report, w'⟩
  · rw [hrun] at hcourse
    obtain ⟨fates, asset, rest, t, rfl, hcourse, hfates, hfails⟩ := hcourse
    obtain ⟨hserving, -⟩ := hcourse.served hgenuine hapart (serving_start hproper hfree)
      fun f hf => ⟨hfates f hf, hup _ (by simp [List.mem_map_of_mem hf])⟩
    exact ⟨fates, asset, rest, t, rfl, hcourse, hfates,
      hfails.no_space hserving (hup asset (by simp)) hgenuine hapart⟩
  · rw [hrun] at hcourse
    obtain ⟨fates, rfl, rfl, hcourse, hfates⟩ := hcourse
    have hfup : ∀ f ∈ fates, Path.up ∉ Path.names f.asset := fun f hf =>
      hup _ (List.mem_map_of_mem hf)
    obtain ⟨hserving, hserved⟩ := hcourse.served hgenuine hapart (serving_start hproper hfree)
      fun f hf => ⟨hfates f hf, hfup f hf⟩
    -- the report lists the assets by their fates
    have hskipped : ∀ f ∈ fates, f.placed = false → f.asset ∈ (reportOn fates).skipped := fun f hf hno =>
      List.mem_map_of_mem (List.mem_filter.2 ⟨hf, by simp [hno]⟩)
    have hplaced : ∀ f ∈ fates, f.placed = true → f.asset ∈ (reportOn fates).placed := fun f hf hyes =>
      List.mem_map_of_mem (List.mem_filter.2 ⟨hf, hyes⟩)
    refine ⟨?_, fun p hp hspace => ?_, fun k hnone hspace => ?_⟩
    · rintro k ⟨q, rfl⟩
      exact hserving.source q
    · obtain ⟨f, hf, rfl⟩ := List.mem_map.1 hp
      obtain ⟨hf, hyes⟩ := List.mem_filter.1 hf
      exact ⟨(hserved f hf).present hyes,
        hcourse.whole (fun g hg => ⟨hserved g hg, hfup g hg⟩) f hf hyes
          fun g hg hline hno => hspace _ (hskipped g hg hno) hline⟩
    · refine hcourse.kept hserved fun f hf hline => ?_
      cases hyes : f.placed with
      | true => exact absurd hline (hnone _ (hplaced f hf hyes))
      | false => exact ⟨rfl, hspace _ (hskipped f hf hyes) hline⟩

/-! ## §5. A directory, and then a file of it. -/

/-- An asset that is allowed, and is copied anew, is placed; then the others follow. -/
theorem placeFrom_of_renewed (total done : Nat) (r : Report) (rest : List Text) {w : World}
    (hfree : LinkFree w.tree) (hup : Path.up ∉ Path.names asset)
    (hallowed : judge w.tree source output asset = .ok .allowed)
    (hrenew : (renew (pathIn source asset) (pathIn output asset)).runOn w.tree = (.ok (), t')) :
    ∃ r' events, r'.placed = r.placed ++ [asset] ∧ r'.skipped = r.skipped ∧
      (placeFrom source output total done r (asset :: rest)).runOn w
        = (placeFrom source output total (done + 1) r' rest).runOn ⟨t', events⟩ := by
  obtain ⟨base, events, hplaced, hskipped, hrun⟩ := runOn_placeOne_of_allowed r hfree hup hallowed
  rw [hrenew] at hrun
  refine ⟨base.place asset, events ++ [.stageAdvanced (Binary64.percentOf (done + 1) total)], ?_, hskipped, ?_⟩
  · simp [Report.place, hplaced]
  · rw [placeFrom, Action.runOn_bind, hrun]
    rfl

/-- Sources with a directory, and an output that holds another in its place. -/
def oneDirectory (held : Forest) : FileTree where
  top := [("dist", .directory [("a", .directory held)]),
    ("src", .directory [("a", .directory [("x", .file [65])])])]
  workingDir := []

theorem renews_oneDirectory :
    judge (oneDirectory [("old", .file [79])]) "src" "dist" "a" = .ok .allowed ∧
      (renew (pathIn "src" "a") (pathIn "dist" "a")).runOn (oneDirectory [("old", .file [79])])
        = (.ok (), oneDirectory [("x", .file [65])]) := by
  have hsource : pathIn "src" "a" = "src/a" := by decide
  have hdest : pathIn "dist" "a" = "dist/a" := by decide
  rw [judge_eq_allowed_iff, hsource, hdest]
  exact ⟨⟨by decide, by cbv, by decide, by cbv, by cbv⟩, by cbv⟩

theorem renews_oneDirectory_again :
    judge (oneDirectory [("x", .file [65])]) "src" "dist" "a/x" = .ok .allowed ∧
      (renew (pathIn "src" "a/x") (pathIn "dist" "a/x")).runOn (oneDirectory [("x", .file [65])])
        = (.ok (), oneDirectory [("x", .file [65])]) := by
  have hsource : pathIn "src" "a/x" = "src/a/x" := by decide
  have hdest : pathIn "dist" "a/x" = "dist/a/x" := by decide
  rw [judge_eq_allowed_iff, hsource, hdest]
  exact ⟨⟨by decide, by cbv, by decide, by cbv, by cbv⟩, by cbv⟩

/-- A directory and then the file in it are both placed, and what was in the directory before is gone. -/
theorem place_whole_oneDirectory :
    Proper (oneDirectory [("old", .file [79])]) ∧ Genuine (oneDirectory [("old", .file [79])]) ∧
      LinkFree (oneDirectory [("old", .file [79])]) ∧
      RootsApart "src" "dist" (oneDirectory [("old", .file [79])]) ∧
      (∀ asset ∈ (["a", "a/x"] : List Text), Path.up ∉ Path.names asset) ∧
      ∃ report w', (place ["a", "a/x"] "src" "dist").runOn ⟨oneDirectory [("old", .file [79])], []⟩
          = (.ok report, w') ∧ report.placed = ["a", "a/x"] ∧
        ∀ q, w'.tree.entryAt? ("dist" :: "a" :: q)
          = (oneDirectory [("old", .file [79])]).entryAt? ("src" :: "a" :: q) := by
  have hfree : ∀ name content, LinkFree (oneDirectory [(name, .file content)]) := fun name content =>
    linkFree_of_hasNoLink (by simp [oneDirectory, Forest.hasNoLink])
  have hnames : (oneDirectory [("old", .file [79])]).top.allNames = ["dist", "a", "old", "src", "a", "x"] := by
    simp [oneDirectory, Forest.allNames_cons, Forest.allNames, Node.children]
  have hproper : Proper (oneDirectory [("old", .file [79])]) :=
    proper_of_allNames (by rw [hnames]; decide) (by decide)
  have hgenuine : Genuine (oneDirectory [("old", .file [79])]) :=
    genuine_of_allNames (by rw [hnames]; decide)
  have hapart : RootsApart "src" "dist" (oneDirectory [("old", .file [79])]) := ⟨by decide, by decide⟩
  have hup : ∀ asset ∈ (["a", "a/x"] : List Text), Path.up ∉ Path.names asset := by decide
  refine ⟨hproper, hgenuine, hfree _ _, hapart, hup, ?_⟩
  have hrun : ∃ report w', (place ["a", "a/x"] "src" "dist").runOn ⟨oneDirectory [("old", .file [79])], []⟩
      = (.ok report, w') ∧ report.placed = ["a", "a/x"] ∧ report.skipped = [] := by
    obtain ⟨hjudge, hrenew⟩ := renews_oneDirectory
    obtain ⟨hjudge', hrenew'⟩ := renews_oneDirectory_again
    obtain ⟨r, events, hplaced, hskipped, hfirst⟩ := placeFrom_of_renewed 2 0 .empty ["a/x"]
      (w := ⟨oneDirectory [("old", .file [79])], []⟩) (hfree _ _) (by decide) hjudge hrenew
    obtain ⟨r', events', hplaced', hskipped', hsecond⟩ := placeFrom_of_renewed 2 1 r []
      (w := ⟨oneDirectory [("x", .file [65])], events⟩) (hfree _ _) (by decide) hjudge' hrenew'
    have hboth : ∃ w', (place ["a", "a/x"] "src" "dist").runOn ⟨oneDirectory [("old", .file [79])], []⟩
        = (.ok r', w') := by
      unfold place
      rw [if_neg (by simp), show (["a", "a/x"] : List Text).length = 2 from rfl, Action.runOn_bind,
        hfirst.trans hsecond]
      exact ⟨_, rfl⟩
    obtain ⟨w', hboth⟩ := hboth
    exact ⟨r', w', hboth, by rw [hplaced', hplaced]; rfl, by rw [hskipped', hskipped]; rfl⟩
  obtain ⟨report, w', hrun, hplaced, hskipped⟩ := hrun
  have hwhole := place_whole ["a", "a/x"] "src" "dist" (w := ⟨oneDirectory [("old", .file [79])], []⟩)
    hproper hgenuine (hfree _ _) hapart hup
  rw [hrun] at hwhole
  obtain ⟨-, hall, -⟩ := hwhole
  refine ⟨report, w', hrun, hplaced, (hall "a" (by simp [hplaced]) (by simp [hskipped])).2⟩

/-! ## §6. Assets that are skipped for want of room. -/

/-- An asset that is not placed and changes a place in the output, in a tree without links with the
sources and the output apart. -/
def Disturbs (t : FileTree) (source output asset : Text) (k : Location) : Prop :=
  Proper t ∧ Genuine t ∧ LinkFree t ∧ RootsApart source output t ∧
    Path.isAbsolute asset = false ∧ Path.up ∉ Path.names asset ∧ t.endOf output <+: k ∧
    ∃ report w', (place [asset] source output).runOn ⟨t, []⟩ = (.ok report, w') ∧ report.placed = [] ∧
      w'.tree.entryAt? k ≠ t.entryAt? k

theorem disturbs_of_renew (hproper : Proper t) (hgenuine : Genuine t)
    (hfree : LinkFree t) (hapart : RootsApart source output t) (hup : Path.up ∉ Path.names asset)
    (hk : t.endOf output <+: k) (hallowed : judge t source output asset = .ok .allowed)
    (hrefused : isRefusal ((renew (pathIn source asset) (pathIn output asset)).runOn t).1 = true)
    (hne : ((renew (pathIn source asset) (pathIn output asset)).runOn t).2.entryAt? k ≠ t.entryAt? k) :
    Disturbs t source output asset k := by
  refine ⟨hproper, hgenuine, hfree, hapart, (judge_eq_allowed_iff.1 hallowed).1, hup, hk, ?_⟩
  obtain ⟨base, events, hplaced, -, hrun⟩ :=
    runOn_placeOne_of_allowed .empty (w := ⟨t, []⟩) hfree hup hallowed
  obtain ⟨hresult, htree⟩ := place_singleton source output asset ⟨t, []⟩
  rw [hrun, reported_of_isRefusal base asset hrefused] at hresult
  rw [hrun] at htree
  refine ⟨base.skip asset, ((place [asset] source output).runOn ⟨t, []⟩).2, Prod.ext hresult rfl, hplaced, ?_⟩
  rw [htree]
  exact hne

/-- An asset below a directory, name by name. -/
theorem pathIn_written {ns ms : List Text} (hns : ∀ n ∈ ns ++ ms, Path.IsName n) (hne : ms ≠ []) :
    pathIn (Path.written "/" ns) (Path.written [] ms) = Path.written "/" (ns ++ ms) := by
  have hroot : Path.IsRoot "/" := .inr (.inl rfl)
  unfold pathIn
  rw [Path.join_written_append hroot (fun n hn => (hns n (List.mem_append_left _ hn)).1)
    (fun n hn => (hns n (List.mem_append_right _ hn)).1) hne]
  exact Path.normalize_written hroot (Path.tidy_of_isName hns) (.inl (by decide))

def farSource : List Text := ["sbox", "workspace", "s"]

def farOutput : List Text := ["sbox", "workspace", "outofreachhere"]

/-- The names of directories below each other. -/
def farDown : List Text := List.replicate 16 longName

/-- The names of a file in the last of them. -/
def farNames : List Text := farDown ++ [("f" : Text)]

/-- Sources with one file in them, far down. -/
def farFile : FileTree where
  top := Forest.nested farSource (Forest.nested farDown [("f", .file [70])])
  workingDir := ["sbox", "workspace"]

/-- A name that the system takes, as it lists it. -/
def Plain (n : Text) : Prop :=
  (Path.IsName n ∧ Utf8.nameForm n = n) ∧ Nameable n ∧ Utf8.byteCount n ≤ maxNameBytes

theorem plain_farSource : ∀ n ∈ farSource, Plain n := by
  unfold Plain
  decide

theorem plain_farOutput : ∀ n ∈ farOutput, Plain n := by
  unfold Plain
  decide

theorem plain_farDown : ∀ n ∈ farDown, Plain n := by
  intro n hn
  obtain ⟨hname, hform, hnameable⟩ := isName_longName
  rw [List.eq_of_mem_replicate hn]
  exact ⟨⟨hname, hform⟩, hnameable, byteCount_longName ▸ by decide⟩

theorem plain_farNames : ∀ n ∈ farNames, Plain n := by
  refine List.forall_mem_append.2 ⟨plain_farDown, ?_⟩
  unfold Plain
  decide

/-- What is known of a path from the root with such names. -/
theorem written_plain {ns : List Text} (hns : ∀ n ∈ ns, Plain n) :
    Path.Straight (Path.written "/" ns) ∧ Path.names (Path.written "/" ns) = ns ∧
      placeOf (Path.written "/" ns) = ns ∧ checkPath (Path.written "/" ns) = .ok () := by
  have hnames : Path.names (Path.written "/" ns) = ns :=
    Path.names_written (.inr (.inl rfl)) fun n hn => (hns n hn).1.1.1
  refine ⟨Path.straight_written (.inr (.inl rfl)) (by decide) fun n hn => (hns n hn).1.1, hnames, ?_, ?_⟩
  · rw [placeOf_of_spelled fun n hn => (hns n (hnames ▸ hn)).1.2, hnames]
  · rw [checkPath_eq_ok_iff, nameable_iff_names, hnames]
    exact fun n hn => (hns n hn).2.1

theorem fits_plain {ns : List Text} (hne : ns ≠ []) (hns : ∀ n ∈ ns, Plain n) :
    Fits (Path.written "/" ns) ↔ (ns.map fun n => Utf8.byteCount n + 1).sum < pathBytesLimit :=
  fits_written_iff hne fun n hn => ⟨(hns n hn).1.1, (hns n hn).2⟩

/-- The directories alone have 4064 bytes, with the slashes. -/
theorem sum_farDown : (farDown.map fun n => Utf8.byteCount n + 1).sum = 4064 := by
  rw [farDown, List.map_replicate, byteCount_longName]
  decide

/-- The path of the file has 4083 bytes. -/
theorem fits_farFile : Fits (Path.written "/" (farSource ++ farNames)) := by
  rw [fits_plain (by decide) (List.forall_mem_append.2 ⟨plain_farSource, plain_farNames⟩), farNames,
    List.map_append, List.map_append, List.sum_append, List.sum_append, sum_farDown]
  decide

/-- The path of its destination has 4096 bytes, and that of the directory above it 4094. -/
theorem fits_farDest : ¬ Fits (Path.written "/" (farOutput ++ farNames)) ∧
    Fits (Path.written "/" (farOutput ++ farDown)) := by
  rw [fits_plain (by decide) (List.forall_mem_append.2 ⟨plain_farOutput, plain_farNames⟩),
    fits_plain (by decide) (List.forall_mem_append.2 ⟨plain_farOutput, plain_farDown⟩), farNames,
    List.map_append, List.map_append, List.map_append, List.sum_append, List.sum_append, List.sum_append,
    sum_farDown]
  decide

theorem entryAt?_farFile : farFile.entryAt? (farSource ++ farNames) = some (.file [70]) :=
  (Forest.entryAt?_nested _).trans ((Forest.entryAt?_nested _).trans rfl)

theorem linkFree_farFile : LinkFree farFile := linkFree_of_hasNoLink (by
  unfold farFile
  rw [Forest.hasNoLink_nested, Forest.hasNoLink_nested, Forest.hasNoLink, Forest.hasNoLink])

theorem judge_farFile : judge farFile (Path.written "/" farSource) (Path.written "/" farOutput)
    (Path.written [] farNames) = .ok .allowed := by
  have hplain := List.forall_mem_append.2 ⟨plain_farSource, plain_farNames⟩
  obtain ⟨hstraight, hnames, hplace, hcheck⟩ := written_plain hplain
  obtain ⟨hsource, hsourceNames, -, hsourceCheck⟩ := written_plain plain_farSource
  obtain ⟨houtput, houtputNames, -, houtputCheck⟩ := written_plain plain_farOutput
  rw [judge_eq_allowed_iff, pathIn_written (fun n hn => (hplain n hn).1.1) (by simp [farNames]),
    isWithin_straight linkFree_farFile hstraight hsource,
    isWithin_straight linkFree_farFile houtput hstraight, hsource.normalize,
    pathExists_iff linkFree_farFile hstraight, hplace, entryAt?_farFile, hnames, hsourceNames, houtputNames]
  refine ⟨?_, ⟨hcheck, hsourceCheck, rfl⟩, fun heq => ?_, ⟨fits_farFile, by simp⟩,
    houtputCheck, hcheck, rfl⟩
  · exact Path.isAbsolute_written (.inl rfl) fun n hn => (plain_farNames n hn).1.1.1
  · have hsame := congrArg Path.names heq
    rw [hnames, hsourceNames] at hsame
    exact absurd hsame (by simp [farNames])

/-- **Directories are left of an asset whose destination the system does not take.** -/
theorem disturbs_farFile : Disturbs farFile (Path.written "/" farSource) (Path.written "/" farOutput)
    (Path.written [] farNames) (farOutput ++ farDown) := by
  have hplain := List.forall_mem_append.2 ⟨plain_farSource, plain_farNames⟩
  have hdestPlain := List.forall_mem_append.2 ⟨plain_farOutput, plain_farNames⟩
  obtain ⟨hstraight, -, hplace, -⟩ := written_plain hplain
  obtain ⟨hdest, -, hdestPlace, hdestCheck⟩ := written_plain hdestPlain
  obtain ⟨hsource, -, hsourcePlace, -⟩ := written_plain plain_farSource
  obtain ⟨houtput, -, houtputPlace, -⟩ := written_plain plain_farOutput
  have hallNames : farFile.top.allNames = farSource ++ farNames := by
    unfold farFile
    rw [Forest.allNames_nested, Forest.allNames_nested, Forest.allNames, Forest.allNames]
    rfl
  have habove : Path.dirName (Path.written "/" (farOutput ++ farNames))
      = Path.written "/" (farOutput ++ farDown) := by
    have hparts := fun n hn => (hdestPlain n hn).1.1.1
    rw [farNames, ← List.append_assoc] at hparts ⊢
    exact Path.dirName_written (.inr (.inl rfl)) (fun n hn => hparts n (List.mem_append_left _ hn))
      (hparts _ (by simp))
  have hnone : farFile.entryAt? (farOutput ++ farDown) = none :=
    entryAt?_eq_none_of_below (show farFile.entryAt? farOutput = none from rfl) (List.prefix_append ..)
  have hway : ClearWay farFile (farOutput ++ farDown) := by
    intro k content hk hfile
    -- the only file is in the sources
    obtain ⟨below, rfl, -⟩ := Forest.eq_append_of_file hfile
    have hpre := List.prefix_of_prefix_length_le ((List.prefix_append ..).trans hk)
      (List.prefix_append farOutput farDown) (by decide)
    exact absurd hpre (by decide)
  obtain ⟨failure, t, hrenew, hsystem, hdir⟩ := renew_unfit (d := farOutput ++ farDown) (n := "f")
    linkFree_farFile hstraight fits_farFile
    (by rw [hplace, entryAt?_farFile]; simp) hdest (by rw [hdestPlace, farNames, List.append_assoc])
    hdestCheck fits_farDest.1 (by rw [habove]; exact fits_farDest.2) hway
  rw [← pathIn_written (fun n hn => (hplain n hn).1.1) (by simp [farNames]),
    ← pathIn_written (fun n hn => (hdestPlain n hn).1.1) (by simp [farNames])] at hrenew
  refine disturbs_of_renew
    (proper_of_allNames (by rw [hallNames]; exact fun n hn => (hplain n hn).1.1) (by decide))
    (genuine_of_allNames (by rw [hallNames]; exact fun n hn => ⟨(hplain n hn).1.2, (hplain n hn).2.1⟩))
    linkFree_farFile ?_ ?_ ?_ judge_farFile (by rw [hrenew]; exact hsystem) ?_
  · unfold RootsApart
    rw [endOf_straight hsource, endOf_straight houtput, hsourcePlace, houtputPlace]
    decide
  · rw [Path.names_written (.inl rfl) fun n hn => (plain_farNames n hn).1.1.1]
    exact fun hup => (plain_farNames _ hup).1.1.2.2 rfl
  · rw [endOf_straight houtput, houtputPlace]
    exact List.prefix_append ..
  · rw [hrenew, hdir, hnone]
    exact Option.some_ne_none _

/-- Sources with a file, and an output in which the working directory is what lies in its place. -/
def insideOutput : FileTree where
  top := [("o", .directory [("a", .directory [("x", .file [65])])]), ("s", .directory [("a", .file [66])])]
  workingDir := ["o", "a"]

theorem disturbs_insideOutput : Disturbs insideOutput "/s" ".." "a" ["o", "a"] := by
  have hsource : pathIn "/s" "a" = "/s/a" := by decide
  have hdest : pathIn ".." "a" = "../a" := by decide
  have hnames : insideOutput.top.allNames = ["o", "a", "x", "s", "a"] := by
    simp [insideOutput, Forest.allNames_cons, Forest.allNames, Node.children]
  have hallowed : judge insideOutput "/s" ".." "a" = .ok .allowed := by
    rw [judge_eq_allowed_iff, hsource]
    exact ⟨by decide, by cbv, by decide, by cbv, by cbv⟩
  -- both at once, so that the run is evaluated once
  have hrenew : (isRefusal ((renew "/s/a" "../a").runOn insideOutput).1 &&
      ((renew "/s/a" "../a").runOn insideOutput).2.entryAt? ["o", "a"] = none) = true := by cbv
  rw [Bool.and_eq_true, decide_eq_true_eq] at hrenew
  refine disturbs_of_renew (proper_of_allNames (by rw [hnames]; decide) (by decide))
    (genuine_of_allNames (by rw [hnames]; decide))
    (linkFree_of_hasNoLink (by simp [insideOutput, Forest.hasNoLink]))
    ⟨by decide, by decide⟩ (by decide) (by decide) hallowed ?_ ?_
  · rw [hsource, hdest]
    exact hrenew.1
  · rw [hsource, hdest, hrenew.2]
    exact (Option.some_ne_none _).symm

/-- **An asset that is skipped can leave its traces in the output**: directories, if the system does not
take the path of its destination; a gap, if that held the working directory. -/
theorem place_disturbs :
    Disturbs farFile (Path.written "/" farSource) (Path.written "/" farOutput) (Path.written [] farNames)
        (farOutput ++ farDown) ∧
      Disturbs insideOutput "/s" ".." "a" ["o", "a"] :=
  ⟨disturbs_farFile, disturbs_insideOutput⟩

end Assets

end ModuleBuild
