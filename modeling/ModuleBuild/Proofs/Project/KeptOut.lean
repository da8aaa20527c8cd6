/-
  ModuleBuild.Proofs.Project.KeptOut
  ──────────────────────────────────
  **THE OUTPUT IS NOT SEARCHED FOR SOURCES.**

  The output directory may lie below the sources.  It is ignored then by its
  absolute path, so that a build does not take what the last one has left for
  sources.  The paths are compared as texts: below a directory of the sources
  that is written with one slash in front no path has two, so an output
  directory written with two is found by no comparison, although the system
  takes both for the same.

  Main results:
    * `Placed.of_configured` — what holds of the directories of every configuration;
    * `Placed.keepsOut` — the walk of the sources does not come into an output that is written with the
      same root.
-/
import ModuleBuild.Proofs.Build.Configuring
import ModuleBuild.Proofs.FileTree.Renewing
import ModuleBuild.Proofs.Output.EachModule
import ModuleBuild.Proofs.Output.Outside
import ModuleBuild.Proofs.Project.OutputDir

namespace ModuleBuild

open FileTree

namespace Config

/-- The walk of the sources does not come into the output. -/
def KeepsOut (config : Config) : Prop :=
  ∀ ns, Path.names config.outDir = Path.names config.rootDir ++ ns →
    ∃ k, k ≠ [] ∧ k <+: ns ∧ Ignored config.ignoredDirs config.rootDir k

/-! ## §1. The directories of a configuration. -/

/-- The directories of a configuration are absolute paths in normal form, and the output directory is
ignored by its path. -/
structure Placed (config : Config) : Prop where
  projectDir : Path.isAbsolute config.projectDir = true
  rootDir : Path.Straight config.rootDir
  outDir : Path.Straight config.outDir
  ignored : config.outDir ∈ config.ignoredDirs

theorem mem_effectiveIgnored_outDir (configured : List Text) (name : Text) {dir : Text}
    (hdir : Path.Straight dir) : dir ∈ effectiveIgnored configured name (some dir) := by
  unfold effectiveIgnored
  dsimp only
  rw [if_neg hdir.ne_nil, hdir.normalize]
  exact NameSet.mem_insert.2 (.inl rfl)

theorem Placed.ofDocument {projectDir : Text} {document : Json} {config : Config}
    {warnings : List Text} (hproject : Path.isAbsolute projectDir = true)
    (h : ofDocument projectDir document = .ok (config, warnings)) : Placed config := by
  obtain ⟨rfl, ⟨rawRoot, hroot⟩, raw, hout, -, hignored⟩ := directories_of_ofDocument h
  have hstraight : Path.Straight config.outDir := hout ▸ Path.straight_resolveAgainst hproject raw
  refine ⟨hproject, hroot ▸ Path.straight_resolveAgainst hproject rawRoot, hstraight, ?_⟩
  rw [hignored, ← hout]
  exact mem_effectiveIgnored_outDir _ _ hstraight

theorem Placed.withOutDir {config : Config} (h : Placed config) (dir : Text) :
    Placed (config.withOutDir dir) :=
  ⟨h.projectDir, h.rootDir, Path.straight_resolveAgainst h.projectDir dir,
    mem_effectiveIgnored_outDir _ _ (Path.straight_resolveAgainst h.projectDir dir)⟩

theorem Placed.override {config : Config} (h : Placed config) (o : Overrides) :
    Placed (config.override o) := by
  have hout : Placed (((given o.outDir).map config.withOutDir).getD config) := by
    cases given o.outDir with
    | none => exact h
    | some dir => exact h.withOutDir dir
  unfold Config.override
  generalize ((given o.outDir).map config.withOutDir).getD config = config' at hout
  dsimp only
  cases given o.rootDir <;> cases given o.indexFileName
  · exact hout
  · exact ⟨hout.projectDir, hout.rootDir, hout.outDir, hout.ignored⟩
  all_goals
    exact ⟨hout.projectDir, Path.straight_resolveAgainst hout.projectDir _, hout.outDir, hout.ignored⟩

/-- **What holds of the directories of every configuration.** -/
theorem Placed.of_configured {request : BuildRequest} {w : World} {config : Config}
    {warnings : List Text} (h : Build.configured request w = .ok (config, warnings)) : Placed config := by
  obtain ⟨document, described, m, -, hdescribed, -, -, rfl⟩ := (Build.configured_eq_ok_iff request w).1 h
  exact (Placed.ofDocument (straight_absolute w.tree request.projectDir).isAbsolute hdescribed).override _

/-! ## §2. The walk of the sources. -/

/-- **The walk of the sources does not come into the output**, if both are written with the same root
and the output does not hold the sources. -/
theorem Placed.keepsOut {config : Config} (h : Placed config)
    (hroot : Path.rootOf config.outDir = Path.rootOf config.rootDir)
    (hapart : ¬ Path.names config.outDir <+: Path.names config.rootDir) : KeepsOut config := by
  intro ns hns
  have hne : ns ≠ [] := by
    rintro rfl
    exact hapart (by rw [hns, List.append_nil])
  refine ⟨ns, hne, List.prefix_rfl, config.outDir, .inr (.inr ?_), .inl h.ignored⟩
  have hnames : ∀ n ∈ Path.names config.rootDir ++ ns, Path.IsName n := hns ▸ h.outDir.isName
  have hbelow : Path.below config.rootDir ns = config.outDir := by
    rw [h.rootDir.eq_written, h.outDir.eq_written, Path.below_written (Path.isRoot_rootOf _)
      (fun n hn => (hnames n (List.mem_append_left _ hn)).1)
      (fun n hn => (hnames n (List.mem_append_right _ hn)).1), hroot, hns]
  rw [hbelow, h.outDir.normalize]

end Config

end ModuleBuild
