/-
  ModuleBuild.Proofs.Output.Outside
  ─────────────────────────────────
  **WHAT PLACING ASSETS LEAVES.**

  Assets are placed one after the other, each judged in the tree that the ones
  before it have left.  What lies apart from the destinations of those that are
  allowed is left.  The destinations lie in the output for paths that do not
  leave it; nothing in the program asks for that.

  Main results:
    * `placeOne_kept` — a step leaves everything but the destination of its asset;
    * `placeFrom_kept` — a run leaves everything but the destinations of its assets;
    * `place_outside` — so nothing changes outside a place that holds all destinations.
-/
import ModuleBuild.Proofs.Output.Overlap

namespace ModuleBuild

open FileTree Edit

namespace Assets

/-! ## §1. One asset after the other. -/

/-- The assets whose turn comes, each with the tree that it meets. -/
def turns (source output : Text) (total : Nat) :
    Nat → Report → List Text → World → List (Text × FileTree)
  | _, _, [], _ => []
  | done, r, asset :: assets, w =>
    (asset, w.tree) ::
      match (placeOne source output asset r).runOn w with
      | (.ok r, w) =>
        turns source output total (done + 1) r assets
          ⟨w.tree, w.events ++ [.stageAdvanced (Binary64.percentOf (done + 1) total)]⟩
      | (.error _, _) => []

/-- The destinations of the assets that are allowed when their turn comes. -/
def IsDestination (source output : Text) (ts : List (Text × FileTree)) (D : Location) : Prop :=
  ∃ turn ∈ ts, judge turn.2 source output turn.1 = .ok .allowed ∧
    Destination turn.2 (pathIn output turn.1) D

/-- A tree that differs from another at some places and below them only; besides, some directories
on the way there may be new. -/
structure KeptBut (places : Location → Prop) (t t' : FileTree) : Prop where
  proper : Proper t'
  kept : ∀ k, (∀ D, places D → ¬ D <+: k) → t'.entryAt? k = t.entryAt? k
    ∨ (t.entryAt? k = none ∧ t'.entryAt? k = some .directory ∧ ∃ D, places D ∧ k <+: D)

theorem KeptBut.refl {places : Location → Prop} {t : FileTree} (h : Proper t) :
    KeptBut places t t :=
  ⟨h, fun _ _ => .inl rfl⟩

theorem KeptBut.mono {places places' : Location → Prop} {t t' : FileTree}
    (h : KeptBut places t t') (hsub : ∀ D, places D → places' D) : KeptBut places' t t' := by
  refine ⟨h.proper, fun k hk => ?_⟩
  rcases h.kept k (fun D hD => hk D (hsub D hD)) with heq | ⟨h1, h2, D, hD, hpre⟩
  · exact .inl heq
  · exact .inr ⟨h1, h2, D, hsub D hD, hpre⟩

theorem KeptBut.trans {places : Location → Prop} {t t' t'' : FileTree} (h : KeptBut places t t')
    (h' : KeptBut places t' t'') : KeptBut places t t'' := by
  refine ⟨h'.proper, fun k hk => ?_⟩
  rcases h.kept k hk with heq | ⟨h1, h2, hnew⟩
  · rw [← heq]
    exact h'.kept k hk
  · -- a directory that is new stays
    rcases h'.kept k hk with heq' | ⟨hnone, -⟩
    · exact .inr ⟨h1, by rw [heq', h2], hnew⟩
    · rw [h2] at hnone
      cases hnone

/-- **A step leaves everything but the destination of its asset.** -/
theorem placeOne_kept (source output asset : Text) (r : Report) {w : World}
    (hproper : Proper w.tree) :
    KeptBut (IsDestination source output [(asset, w.tree)]) w.tree
      ((placeOne source output asset r).runOn w).2.tree := by
  by_cases h : judge w.tree source output asset = .ok .allowed
  · rw [placeOne_of_allowed r h]
    rcases hrun : (copy source output asset r).runOn w with ⟨result, w'⟩
    have hcopy := copy_copied hproper hrun
    refine ⟨hcopy.proper hproper, fun k hk => ?_⟩
    rcases hcopy.copied with ⟨-, hsame⟩ | ⟨D, hD, -, -, hout⟩
    · exact .inl (hsame k)
    · have hdest : IsDestination source output [(asset, w.tree)] D :=
        ⟨_, List.mem_singleton_self _, h, hD⟩
      rcases hout k (hk D hdest) with heq | ⟨h1, h2, hpre⟩
      · exact .inl heq
      · exact .inr ⟨h1, h2, D, hdest, hpre⟩
  · rw [placeOne_of_not_allowed r h]
    exact .refl hproper

/-- **A run leaves everything but the destinations of its assets.** -/
theorem placeFrom_kept (source output : Text) (total : Nat) :
    ∀ (assets : List Text) (done : Nat) (r : Report) (w : World), Proper w.tree →
      KeptBut (IsDestination source output (turns source output total done r assets w)) w.tree
        ((placeFrom source output total done r assets).runOn w).2.tree
  | [], _, _, _, hproper => .refl hproper
  | asset :: assets, done, r, w, hproper => by
    have hfirst : ∀ D, IsDestination source output [(asset, w.tree)] D →
        IsDestination source output (turns source output total done r (asset :: assets) w) D := by
      rintro D ⟨turn, hturn, h⟩
      rw [List.mem_singleton.1 hturn] at h
      exact ⟨_, List.mem_cons_self .., h⟩
    have hstep := (placeOne_kept source output asset r hproper).mono hfirst
    unfold placeFrom
    rw [Action.runOn_bind]
    rcases hrun : (placeOne source output asset r).runOn w with ⟨failure | r1, w1⟩
    · rw [hrun] at hstep
      exact hstep
    · rw [hrun] at hstep
      dsimp only
      rw [Action.runOn_bind, Action.runOn_note]
      -- the turns of the rest are turns of the whole run
      refine hstep.trans ?_
      have hrest := placeFrom_kept source output total assets (done + 1) r1
        ⟨w1.tree, w1.events ++ [.stageAdvanced (Binary64.percentOf (done + 1) total)]⟩ hstep.proper
      refine hrest.mono ?_
      rintro D ⟨turn, hturn, h⟩
      refine ⟨turn, ?_, h⟩
      unfold turns
      rw [hrun]
      exact List.mem_cons_of_mem _ hturn

theorem turns_singleton (source output asset : Text) (total done : Nat) (r : Report) (w : World) :
    turns source output total done r [asset] w = [(asset, w.tree)] := by
  unfold turns
  split <;> rfl

theorem tree_place_singleton (source output asset : Text) (w : World) :
    ((place [asset] source output).runOn w).2.tree
      = ((placeOne source output asset .empty).runOn w).2.tree := by
  unfold place placeFrom
  rw [if_neg (by simp), Action.runOn_bind, Action.runOn_bind]
  rcases (placeOne source output asset .empty).runOn w with ⟨failure | r, w'⟩ <;> rfl

/-! ## §2. All of them. -/

/-- **What placing assets leaves.**  What changes lies at or below the destination of an asset that is
allowed when its turn comes, or is a directory that is made above one.  So if all those destinations
lie within a place, nothing outside it changes, except that missing directories above it are made. -/
theorem place_outside (assets : List Text) (source output : Text) {w : World}
    (hproper : Proper w.tree) :
    (∀ k, (∀ D, IsDestination source output (turns source output assets.length 0 .empty assets w) D →
        ¬ D <+: k) →
      ((place assets source output).runOn w).2.tree.entryAt? k = w.tree.entryAt? k
        ∨ (w.tree.entryAt? k = none ∧
            ((place assets source output).runOn w).2.tree.entryAt? k = some .directory ∧
            ∃ D, IsDestination source output
              (turns source output assets.length 0 .empty assets w) D ∧ k <+: D))
    ∧ ∀ R, (∀ D, IsDestination source output
        (turns source output assets.length 0 .empty assets w) D → R <+: D) →
      ∀ k, ¬ R <+: k →
        ((place assets source output).runOn w).2.tree.entryAt? k = w.tree.entryAt? k
          ∨ (w.tree.entryAt? k = none ∧
              ((place assets source output).runOn w).2.tree.entryAt? k = some .directory ∧
              k <+: R) := by
  have hkept : KeptBut (IsDestination source output
      (turns source output assets.length 0 .empty assets w)) w.tree
      ((place assets source output).runOn w).2.tree := by
    unfold place
    split
    · exact .refl hproper
    · have hfrom := placeFrom_kept source output assets.length assets 0 .empty w hproper
      rw [Action.runOn_bind]
      rcases hrun : (placeFrom source output assets.length 0 .empty assets).runOn w with
        ⟨failure | report, w'⟩
      · rw [hrun] at hfrom
        exact hfrom
      · rw [hrun] at hfrom
        exact hfrom
  refine ⟨hkept.kept, fun R hR k hk => ?_⟩
  rcases hkept.kept k (fun D hD hpre => hk ((hR D hD).trans hpre)) with heq | ⟨h1, h2, D, hD, hpre⟩
  · exact .inl heq
  · refine .inr ⟨h1, h2, ?_⟩
    -- both are on the way to the destination
    rcases List.prefix_or_prefix_of_prefix hpre (hR D hD) with h | h
    · exact h
    · exact absurd h hk

/-- An asset that goes to an output beside its source leaves the source. -/
theorem place_outside_neighbours :
    neighbours.Proper ∧
      ((place ["a.txt"] "src" "dist").runOn ⟨neighbours, []⟩).2.tree.entryAt? ["src", "a.txt"]
        = some (.file [65]) := by
  have hwithin : ∀ D, IsDestination "src" "dist"
      (turns "src" "dist" 1 0 .empty ["a.txt"] ⟨neighbours, []⟩) D →
      (["dist"] : Location) <+: D := by
    rintro D ⟨turn, hturn, -, hD⟩
    rw [turns_singleton, List.mem_singleton] at hturn
    rw [hturn] at hD
    rw [hD.det destination_neighbours]
    decide
  refine ⟨proper_neighbours, ?_⟩
  rcases (place_outside ["a.txt"] "src" "dist" proper_neighbours).2 _ hwithin ["src", "a.txt"]
    (by decide) with heq | ⟨hnone, -⟩
  · rw [heq]
    decide
  · exact absurd hnone (by decide)

/-- A path that leaves the output, and comes back into the source, takes a file away outside the
output. -/
theorem place_changes_outside :
    neighbours.Proper ∧ neighbours.locate .target "dist" = .ok (.occupied ["dist"]) ∧
      ¬ (["dist"] : Location) <+: ["src", "a.txt"] ∧
      neighbours.entryAt? ["src", "a.txt"] = some (.file [65]) ∧
      ((place ["../src/a.txt"] "src" "dist").runOn ⟨neighbours, []⟩).2.tree.entryAt?
        ["src", "a.txt"] = none := by
  have hsource : pathIn "src" "../src/a.txt" = "src/a.txt" := by decide
  have hdest : pathIn "dist" "../src/a.txt" = "src/a.txt" := by decide
  have hfile : neighbours.entryAt? ["src", "a.txt"] = some (.file [65]) := by decide
  have hlies : LiesAt neighbours (pathIn "src" "../src/a.txt") ["src", "a.txt"] :=
    ⟨by rw [hsource]; cbv, by rw [hfile]; simp, fun path => by rw [hfile]; simp⟩
  have hjudge : judge neighbours "src" "dist" "../src/a.txt" = .ok .allowed := by
    rw [judge_eq_allowed_iff, hsource]
    exact ⟨by decide, by cbv, by decide, by cbv, by cbv⟩
  have hend : ending (pathIn "dist" "../src/a.txt") = .named "a.txt" := by
    rw [hdest]
    decide
  have hlocate : neighbours.locate .name (pathIn "dist" "../src/a.txt")
      = .ok (.occupied ["src", "a.txt"]) := by
    rw [hdest]
    cbv
  refine ⟨proper_neighbours, by cbv, by decide, hfile, ?_⟩
  rw [tree_place_singleton, placeOne_of_allowed .empty hjudge]
  rcases source_lost (w := ⟨neighbours, []⟩) proper_neighbours hlies rfl hend hlocate
    (List.prefix_refl _) with hgone | ⟨-, k, hDk, hne, hsome⟩
  · exact hgone _ (List.prefix_refl _)
  · -- below a file there is nothing
    exact absurd (isDirectory_of_below hsome hDk (Ne.symm hne)) (by simp [hfile])

end Assets

end ModuleBuild
