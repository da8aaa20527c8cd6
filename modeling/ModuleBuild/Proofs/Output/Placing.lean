/-
  ModuleBuild.Proofs.Output.Placing
  ─────────────────────────────────
  **WHAT PLACING AN ASSET LEAVES.**

  An asset that is judged to be one goes to the destination of its path in the
  output, wherever that is: the path in the source is judged, not the one in
  the output.  Everything but that destination is left.

  Main results:
    * `judge_eq_allowed_iff` — the assets that are allowed;
    * `copy_cases` — what copying an asset leaves and reports, in terms of its steps;
    * `copy_copied` — copying an asset leaves everything but its destination, and it lies there if it
      is placed.
-/
import ModuleBuild.Output.Assets
import ModuleBuild.Proofs.FileTree.Replacing

namespace ModuleBuild

open FileTree Edit

namespace Assets

/-! ## §1. Verdicts. -/

variable {source output asset : Text}

/-- An asset is allowed if its path leads into the source, to something that does not hold the
output. -/
theorem judge_eq_allowed_iff {t : FileTree} :
    judge t source output asset = .ok .allowed ↔
      Path.isAbsolute asset = false ∧ t.isWithin (pathIn source asset) source = .ok true ∧
        pathIn source asset ≠ Path.normalize source ∧ t.pathExists (pathIn source asset) = true ∧
        t.isWithin output (pathIn source asset) = .ok false := by
  unfold judge
  dsimp only
  generalize t.isWithin (pathIn source asset) source = inside
  generalize t.isWithin output (pathIn source asset) = holds
  generalize t.pathExists (pathIn source asset) = there
  by_cases hroot : pathIn source asset = Path.normalize source
  · -- the source itself is no asset
    cases Path.isAbsolute asset <;> rcases inside with failure | _ | _ <;>
      simp [hroot, bind, Except.bind, pure, Except.pure]
  · cases Path.isAbsolute asset <;> rcases inside with failure | _ | _ <;> cases there <;>
      rcases holds with failure' | _ | _ <;> simp [hroot, bind, Except.bind, pure, Except.pure]

theorem warningFor_eq_none_iff {verdict : Verdict} :
    warningFor source output asset verdict = none ↔ verdict = .allowed := by
  cases verdict <;> simp [warningFor]

/-! ## §2. Steps. -/

/-- A step whose failure of the system is its result leaves what the step leaves. -/
theorem runOn_attempt {α : Type} (step : Action α) (w : World) :
    (attempt step).runOn w
      = match step.runOn w with
        | (.ok a, w') => (.ok (.ok a), w')
        | (.error failure, w') =>
          if failure.isSystemFault then (.ok (.error failure), w') else (.error failure, w') := by
  unfold attempt
  rw [Action.runOn_tryCatch, Action.runOn_bind]
  rcases step.runOn w with ⟨failure | a, w'⟩
  · dsimp only
    by_cases h : failure.isSystemFault = true
    · rw [if_pos h, if_pos h]
      rfl
    · rw [if_neg h, if_neg h]
      rfl
  · rfl

/-- Clearing a destination removes what is there, if anything. -/
theorem tree_clear (dest : Text) (w : World) :
    (w.tree.pathOccupied dest = false ∧ (clear dest).runOn w = (.ok false, w))
      ∨ w.tree.pathOccupied dest = true ∧
        ∃ r t' events, (removePath dest).runOn w.tree = (r, t') ∧
          (clear dest).runOn w = (r.map fun _ => true, ⟨t', events⟩) := by
  have hview : (clear dest).runOn w
      = (if w.tree.pathOccupied dest then do
          (liftM (removePath dest) : Action Unit)
          Action.log .info logger (Text.join ["Removed existing static file: ", dest])
          return true
        else return false : Action Bool).runOn w := rfl
  rw [hview]
  cases hocc : w.tree.pathOccupied dest with
  | false => exact .inl ⟨rfl, rfl⟩
  | true =>
    refine .inr ⟨rfl, ?_⟩
    rw [if_pos rfl, Action.runOn_bind, Action.runOn_lift]
    rcases hrun : (removePath dest).runOn w.tree with ⟨r, t'⟩
    cases r with
    | error failure => exact ⟨.error failure, t', w.events, rfl, rfl⟩
    | ok u =>
      dsimp only
      rw [Action.runOn_bind, Action.runOn_log]
      exact ⟨.ok u, t', _, rfl, rfl⟩

/-- A result that reports one more asset as placed. -/
def Places (r : Report) (result : Except Failure Report) : Prop :=
  ∃ r', result = .ok r' ∧ r'.placed ≠ r.placed

/-- An asset that is left out is not placed. -/
theorem not_places_refuse (source asset : Text) {r r' : Report} (h : r'.placed = r.placed)
    (failure : Failure) (w : World) :
    ((refuse source asset r' failure).runOn w).2.tree = w.tree ∧
      ¬ Places r ((refuse source asset r' failure).runOn w).1 := by
  refine ⟨rfl, ?_⟩
  rintro ⟨r'', hr, hne⟩
  cases hr
  exact hne h

/-- Copying an asset: if its destination is cleared, what the copy leaves; it is placed only if the copy
succeeds. -/
theorem copy_cases (source output asset : Text) (r : Report) (w : World) :
    match (clear (pathIn output asset)).runOn w with
    | (.ok _, w') =>
      ((copy source output asset r).runOn w).2.tree
          = ((copyPath (pathIn source asset) (pathIn output asset)).runOn w'.tree).2 ∧
        (Places r ((copy source output asset r).runOn w).1 →
          ((copyPath (pathIn source asset) (pathIn output asset)).runOn w'.tree).1 = .ok ())
    | (.error _, w') =>
      ((copy source output asset r).runOn w).2.tree = w'.tree ∧
        ¬ Places r ((copy source output asset r).runOn w).1 := by
  have hthrow : ∀ failure : Failure, ¬ Places r (.error failure) := by
    rintro failure ⟨r', hr, -⟩
    cases hr
  unfold copy
  dsimp only
  rw [Action.runOn_bind, runOn_attempt]
  rcases (clear (pathIn output asset)).runOn w with ⟨failure | removed, w1⟩
  · dsimp only
    by_cases hsystem : failure.isSystemFault = true
    · simp only [if_pos hsystem]
      exact not_places_refuse source asset rfl failure w1
    · simp only [if_neg hsystem]
      exact ⟨trivial, hthrow failure⟩
  · dsimp only
    rw [Action.runOn_bind, runOn_attempt, Action.runOn_lift]
    have hplaced : (if removed = true then r.replace asset else r).placed = r.placed := by
      split
      · rfl
      · rfl
    rcases (copyPath (pathIn source asset) (pathIn output asset)).runOn w1.tree with
      ⟨failure | u, t'⟩
    · dsimp only
      by_cases hsystem : failure.isSystemFault = true
      · simp only [if_pos hsystem]
        obtain ⟨htree, hnot⟩ := not_places_refuse source asset hplaced failure ⟨t', w1.events⟩
        exact ⟨htree, fun h => absurd h hnot⟩
      · simp only [if_neg hsystem]
        exact ⟨trivial, fun h => absurd h (hthrow failure)⟩
    · exact ⟨rfl, fun _ => rfl⟩

/-- An asset whose verdict is not that it is allowed changes nothing. -/
theorem placeOne_of_not_allowed (r : Report) {w : World}
    (h : judge w.tree source output asset ≠ .ok .allowed) :
    ((placeOne source output asset r).runOn w).2.tree = w.tree := by
  unfold placeOne
  rw [Action.runOn_bind, Action.runOn_ask]
  cases hjudge : judge w.tree source output asset with
  | error failure => rfl
  | ok verdict =>
    dsimp only
    split
    · rfl
    · rename_i hnone
      rw [warningFor_eq_none_iff] at hnone
      rw [hjudge, hnone] at h
      exact absurd rfl h

/-- An asset that is allowed is copied. -/
theorem placeOne_of_allowed (r : Report) {w : World}
    (h : judge w.tree source output asset = .ok .allowed) :
    (placeOne source output asset r).runOn w = (copy source output asset r).runOn w := by
  unfold placeOne
  rw [Action.runOn_bind, Action.runOn_ask, h]
  rfl

/-- What copying an asset leaves: a tree that differs from the one before at the destination of its path
and below it only; besides, some directories on the way there may be new. -/
structure Copied (p : Text) (t : FileTree) (placed : Prop) (t' : FileTree) : Prop where
  workingDir : t'.workingDir = t.workingDir
  proper : Proper t → Proper t'
  /-- An asset that is placed lies at the destination. -/
  copied : (¬ placed ∧ ∀ k, t'.entryAt? k = t.entryAt? k)
    ∨ ∃ D, Destination t p D ∧ (t.entryAt? D ≠ none ↔ t.pathOccupied p = true) ∧
        (placed → t'.entryAt? D ≠ none) ∧
        ∀ k, ¬ D <+: k → t'.entryAt? k = t.entryAt? k
          ∨ (t.entryAt? k = none ∧ t'.entryAt? k = some .directory ∧ k <+: D)

/-- **Copying an asset leaves everything but the destination of its path in the output.** -/
theorem copy_copied {r : Report} {w w' : World} {result : Except Failure Report}
    (hproper : Proper w.tree) (hcopy : (copy source output asset r).runOn w = (result, w')) :
    Copied (pathIn output asset) w.tree (Places r result) w'.tree := by
  have hcases := copy_cases source output asset r w
  rw [hcopy] at hcases
  rcases tree_clear (pathIn output asset) w with
    ⟨hfree, hclear⟩ | ⟨hocc, cleared, t1, events, hrun, hclear⟩
  · rw [hclear] at hcases
    obtain ⟨htree, hplaces⟩ := hcases
    rcases hcopied : (copyPath (pathIn source asset) (pathIn output asset)).runOn w.tree with ⟨rc, t'⟩
    have hdone : Delivered (pathIn output asset) w.tree rc t' :=
      copyPath_delivered hproper hfree hcopied
    rw [hcopied] at htree hplaces
    rw [htree]
    refine ⟨hdone.workingDir, hdone.proper, ?_⟩
    rcases hdone.delivered with ⟨hr, hsame⟩ | ⟨D, hD, hnone, hlands, hout⟩
    · exact .inl ⟨fun h => hr (hplaces h), hsame⟩
    · exact .inr ⟨D, hD, by simp [hnone, hfree], fun h => hlands (hplaces h), hout⟩
  · rw [hclear] at hcases
    rcases removePath_removed hproper hocc hrun with ⟨failure, rfl, rfl⟩ | ⟨D, hD, hremoved⟩
    · obtain ⟨htree, hplaces⟩ := hcases
      rw [htree]
      exact ⟨rfl, id, .inl ⟨hplaces, fun _ => rfl⟩⟩
    · cases cleared with
      | error failure =>
        obtain ⟨htree, hplaces⟩ := hcases
        rw [htree]
        exact ⟨hremoved.workingDir, hremoved.proper,
          .inr ⟨D, hD, by simp [hremoved.occupied, hocc], fun h => absurd h hplaces,
            fun k hk => .inl (hremoved.outside k hk)⟩⟩
      | ok u =>
        -- what is copied goes where the removed thing was, or below
        obtain ⟨htree, hplaces⟩ := hcases
        rcases hcopied : (copyPath (pathIn source asset) (pathIn output asset)).runOn t1 with ⟨rc, t'⟩
        have hdone : Delivered (pathIn output asset) t1 rc t' :=
          copyPath_delivered (hremoved.proper hproper) (hremoved.gone rfl).2.1 hcopied
        obtain ⟨hlands, hout⟩ := delivered_of_removed hremoved hdone
        dsimp only at htree hplaces
        rw [hcopied] at htree hplaces
        rw [htree]
        exact ⟨hdone.workingDir.trans hremoved.workingDir, hdone.proper ∘ hremoved.proper,
          .inr ⟨D, hD, by simp [hremoved.occupied, hocc], fun h => hlands (hplaces h),
            fun k hk => .inl (hout k hk)⟩⟩

end Assets

end ModuleBuild
