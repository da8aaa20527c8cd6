/-
  ModuleBuild.Proofs.Build.StagesAgain
  ────────────────────────────────────
  **THE STAGES OF A BUILD, RUN AGAIN.**

  What a stage of a second build comes to is settled by what the same stage of
  the first came to, as far as both look at the same.  The configuration is
  read again as long as its file is untouched and the manifest still declares
  modules.  Assets are placed again beside the first run.  The entry module is
  found by names alone, and the start script that was recorded for it is
  recorded again in the same words.

  Main results:
    * `configured_again` — the configuration is read again;
    * `gives_compileAll` — the sources are compiled;
    * `placeAssets_again`, `recordStart_again` — assets are placed and the start is recorded again;
    * `gives_conclude` — the end of a build, if nobody can be asked.
-/
import ModuleBuild.Proofs.Build.Question
import ModuleBuild.Proofs.Output.BuiltOver
import ModuleBuild.Proofs.Output.EntryFound

namespace ModuleBuild

open FileTree
open ModuleBuild.Action

variable {t u : FileTree} {p : Text}

/-! ## §1. Documents in trees that agree on the way. -/

theorem Manifest.load_congr (hfree : LinkFree t) (hp : Path.Straight p)
    (h : ∀ k, k <+: placeOf p → t.entryAt? k = u.entryAt? k) : load t p = load u p := by
  unfold load namesFile readObject
  rw [find?_congr hfree hp h, readBytes_congr hfree hp h]

theorem Config.readDocument_congr {projectDir : Text} (hfree : LinkFree t)
    (hp : Path.Straight (Path.join projectDir fileName))
    (h : ∀ k, k <+: placeOf (Path.join projectDir fileName) → t.entryAt? k = u.entryAt? k) :
    readDocument t projectDir = readDocument u projectDir := by
  unfold readDocument namesFile readObject
  dsimp only
  rw [find?_congr hfree hp h, readBytes_congr hfree hp h]

/-- A document that is read lies in a file. -/
theorem Config.hasFile_of_readDocument {projectDir : Text} {document : Json.Members}
    (hfree : LinkFree t) (hp : Path.Straight (Path.join projectDir fileName))
    (h : readDocument t projectDir = .ok document) :
    HasFile t (placeOf (Path.join projectDir fileName)) := by
  unfold readDocument readObject at h
  dsimp only at h
  cases hread : t.readBytes (Path.join projectDir fileName) with
  | ok content => exact ⟨content, ((readBytes_eq_ok_iff hfree hp).1 hread).2⟩
  | error failure =>
    rw [hread] at h
    split at h <;> cases h

theorem Manifest.hasFile_of_load {m : Manifest} (hfree : LinkFree t) (hp : Path.Straight p)
    (h : load t p = .ok m) : HasFile t (placeOf p) := by
  obtain ⟨content, hread⟩ := exists_readBytes_of_load h
  exact ⟨content, ((readBytes_eq_ok_iff hfree hp).1 hread).2⟩

/-! ## §2. Up to the compiled sources. -/

/-- A tool that exits with zero has nothing wrong. -/
theorem Toolchain.gives_run {tool : Edit Int} (h : tool.runOn t = (.ok 0, u)) (label : Text) (r : ToolRun) :
    Gives (Toolchain.run label r tool) t none u := by
  unfold Toolchain.run
  refine (gives_log _ _ _ t).bind ((gives_note _ t).bind ?_)
  refine Gives.bind (u := u) (x := Except.error none) (Gives.tryCatch ((gives_lift h).bind ?_) _) ?_
  · exact gives_pure _ u
  · exact gives_pure _ u

theorem Toolchain.gives_checkTypes {tools : Toolchain} (h : tools.typeCheck.runOn t = (.ok 0, u))
    (projectDir : Text) : Gives (tools.checkTypes projectDir) t none u := by
  unfold Toolchain.checkTypes
  refine (gives_log _ _ _ t).bind ((Toolchain.gives_run h _ _).bind ?_)
  exact (gives_log _ _ _ u).bind (gives_pure _ u)

theorem Toolchain.gives_compileSources {tools : Toolchain} {c : Compilation}
    (h : if c.inputs = [] then u = t else (tools.compile c).runOn t = (.ok 0, u)) (projectDir : Text) :
    Gives (tools.compileSources c projectDir) t none u := by
  unfold Toolchain.compileSources
  by_cases hnone : c.inputs = []
  · rw [if_pos hnone] at h
    rw [if_pos hnone, h]
    exact (gives_log _ _ _ t).bind (gives_pure _ t)
  · rw [if_neg hnone] at h
    rw [if_neg hnone]
    exact (gives_log _ _ _ t).bind (Toolchain.gives_run h _ _)

namespace Build

/-- **The configuration is read again.** -/
theorem configured_again {request : BuildRequest} {w w' : World} {config : Config}
    {warnings : List Text} {m : Manifest} (h : configured request w = .ok (config, warnings))
    (hproject : projectOf request w' = projectOf request w)
    (hdocument : Config.readDocument w'.tree (projectOf request w)
      = Config.readDocument w.tree (projectOf request w))
    (hload : Manifest.load w'.tree (Manifest.pathIn (projectOf request w)) = .ok m)
    (hmodule : m.isModule = true) : configured request w' = .ok (config, warnings) := by
  obtain ⟨document, described, -, hread, hdescribed, -, -, hconfig⟩ := (configured_eq_ok_iff request w).1 h
  rw [configured_eq_ok_iff, hproject]
  exact ⟨document, described, m, hdocument.trans hread, hdescribed, hload, hmodule, hconfig⟩

/-- The sources of a build, by the walk of their directory. -/
theorem gives_sources {config : Config} {inputs : List Text}
    (h : (t.walk config.rootDir config.ignoredDirs).map
      (Listing.paths [Specifier.sourceExtension] [".d.ts"]) = .ok inputs) :
    Gives (sources config) t inputs t := by
  intro events
  obtain ⟨events', hrun⟩ := Listing.runOn_files config.rootDir [Specifier.sourceExtension]
    config.ignoredDirs [".d.ts"] ⟨t, events⟩
  exact ⟨events', hrun.trans (by rw [h])⟩

/-- **The sources are compiled**, if the tools succeed. -/
theorem gives_compileAll {tools : Toolchain} {request : BuildRequest} {config : Config}
    {inputs : List Text}
    (hsources : (t.walk config.rootDir config.ignoredDirs).map
      (Listing.paths [Specifier.sourceExtension] [".d.ts"]) = .ok inputs)
    (htypes : (config.strict && !request.skipTypeCheck) = true → tools.typeCheck.runOn t = (.ok 0, t))
    (hcompile : if inputs = [] then u = t
      else (tools.compile ⟨inputs, config.outDir, some config.rootDir⟩).runOn t = (.ok 0, u))
    (projectDir : Text) (warnings : List Text) :
    Gives (compileAll tools request projectDir config warnings) t
      (.ok { BuildResult.completed config inputs request.durationMs with warnings := warnings }) u := by
  have hchecked : Gives (checkTypes tools request projectDir config) t none t := by
    unfold checkTypes
    split
    · rename_i hstrict
      exact Toolchain.gives_checkTypes (htypes hstrict) projectDir
    · exact gives_pure none t
  refine (gives_forM (fun _ => gives_log _ _ _ t) warnings).bind (hchecked.bind ?_)
  refine (gives_sources hsources).bind ((gives_log _ _ _ t).bind ?_)
  exact (Toolchain.gives_compileSources hcompile projectDir).bind (gives_pure _ u)

/-! ## §3. The assets. -/

section Assets

variable {config : Config} {m : Location} {r r' ru : BuildResult} {w w' wu : World} {e : Option Entry}
  (hroot : Path.Straight config.rootDir) (hroot' : Path.Spelled config.rootDir)
  (hout : Path.Straight config.outDir) (hout' : Path.Spelled config.outDir)
  (hne : Path.names config.outDir ≠ []) (hproper : Proper w.tree) (hfree : LinkFree w.tree)
  (hassets : ∀ asset ∈ config.assetPaths, Path.isAbsolute asset = false →
    Assets.Admissible config.rootDir config.outDir m asset)
  (hrun : (placeAssets config r).runOn w = (.ok r', w'))

include hroot hroot' hout hout' hne hproper hfree hassets hrun

theorem placeAssets_stocked :
    Assets.Stocked config.rootDir config.outDir w.tree w'.tree
      ∧ Assets.Moved config.rootDir config.outDir config.assetPaths w.tree w'.tree := by
  unfold placeAssets at hrun
  by_cases hnil : config.assetPaths = []
  · rw [if_pos hnil] at hrun
    cases hrun
    exact ⟨.refl hproper hfree, .refl w.tree⟩
  · rw [if_neg hnil, runOn_bind, runOn_note] at hrun
    obtain ⟨report, v, hplace, hrest⟩ := exists_of_runOn_bind hrun
    cases hrest
    exact Assets.place_stocked (w := ⟨w.tree, w.events ++ [.stageBegan "Static files progress:"]⟩) hout
      hout' hne hroot hroot' hproper hfree hassets hplace

/-- **The assets are placed again.** -/
theorem placeAssets_again (he : e ≠ none) (hm : ¬ Path.names config.outDir <+: m)
    (hre : Assets.Restocked config.outDir m e w'.tree w.tree w.tree wu.tree) (hagrees : Agrees r ru) :
    ∃ ru' wu', (placeAssets config ru).runOn wu = (.ok ru', wu') ∧ Agrees r' ru'
      ∧ Assets.Restocked config.outDir m e w'.tree w.tree w'.tree wu'.tree := by
  unfold placeAssets at hrun ⊢
  by_cases hnil : config.assetPaths = []
  · rw [if_pos hnil] at hrun ⊢
    cases hrun
    exact ⟨_, _, rfl, ⟨hagrees.1, hagrees.2, hagrees.3, hagrees.4, hagrees.5⟩, hre⟩
  · rw [if_neg hnil, runOn_bind, runOn_note] at hrun ⊢
    obtain ⟨report, v, hplace, hrest⟩ := exists_of_runOn_bind hrun
    cases hrest
    have hbegun : ∀ v vu : World, v.tree = w.tree → vu.tree = wu.tree →
        Assets.Restocked config.outDir m e w'.tree v.tree v.tree vu.tree := by
      intro v vu hv hvu
      rw [hv, hvu]
      exact hre
    obtain ⟨reportu, wu', hplaceu, hplaced, hskipped, hrestocked⟩ :=
      Assets.place_again (w := ⟨w.tree, w.events ++ [.stageBegan "Static files progress:"]⟩) hout hout' hne
        hroot hroot' he hm hproper hfree hassets
        (hbegun _ ⟨wu.tree, wu.events ++ [.stageBegan "Static files progress:"]⟩ rfl rfl) hplace
    dsimp only
    rw [runOn_bind, hplaceu]
    exact ⟨_, _, rfl, ⟨hagrees.1, hplaced, hskipped, hagrees.4, hagrees.5⟩, hrestocked⟩

end Assets

/-! ## §4. The start script. -/

/-- The entry module of a tree, if the project names one or one is found. -/
def entryIn (config : Config) (t : FileTree) : Except Failure (Option Text) :=
  match config.indexPath with
  | some path => .ok (some path)
  | none =>
    if t.namesDirectory config.outDir then
      (t.walk config.outDir config.ignoredDirs).map fun sightings =>
        ((sightings.filterMap Sighting.listed?).find? (Entry.isEntry config.indexFileName)).map
          fun e => relativePath (t.absolute config.outDir) e.1
    else .ok none

theorem runOn_entryPath (config : Config) (w : World) :
    ∃ events, (entryPath config).runOn w = (entryIn config w.tree, ⟨w.tree, events⟩) := by
  unfold entryPath entryIn
  cases config.indexPath with
  | some path => exact ⟨_, rfl⟩
  | none => exact Entry.runOn_find config.outDir config.indexFileName config.ignoredDirs w

/-- The entry module is found by names alone. -/
theorem entryIn_alike (h : Alike t u) (hfree : LinkFree t) (config : Config) :
    entryIn config t = entryIn config u := by
  have hdir : t.namesDirectory config.outDir = u.namesDirectory config.outDir := by
    unfold namesDirectory find?
    rw [locate_alike h]
    cases u.locate .target config.outDir with
    | error failure => rfl
    | ok place =>
      cases place with
      | occupied l => exact h.isDirectory l
      | vacant parent name => rfl
  unfold entryIn
  rw [hdir, walk_alike h hfree, absolute_alike h]

variable {config : Config} {path : Text} {m : Manifest} {r r' ru : BuildResult} {w w' wu : World}

/-- Without an entry module a build goes on with a warning. -/
theorem gives_recordStart_none (h : entryIn config t = .ok none) (path : Text) (r : BuildResult) :
    ∃ r', Gives (recordStart config path r) t r' t ∧ Agrees r r' := by
  refine ⟨{ r with warnings := r.warnings
    ++ [("No index file found! You have to manually set the start script in package.json" : Text)] },
    ?_, ?_⟩
  · intro events
    obtain ⟨events', hentry⟩ := runOn_entryPath config ⟨t, events⟩
    unfold recordStart
    rw [runOn_bind, hentry]
    dsimp only
    rw [h]
    exact ⟨_, rfl⟩
  · exact ⟨rfl, rfl, rfl, rfl, rfl⟩

/-- What recording the start of an entry module comes to. -/
theorem runOn_recordStart {entry : Text} (h : entryIn config w.tree = .ok (some entry))
    (hload : Manifest.load w.tree path = .ok m) (r : BuildResult) :
    ∃ events, (recordStart config path r).runOn w
      = match w.tree.replaceText path
            (m.withStart (startScript (outDirReference config) entry)).content with
        | .error failure => (.error failure, ⟨w.tree, events⟩)
        | .ok t' =>
          (.ok { r with
            entryPath := some entry
            startScript := some (startScript (outDirReference config) entry) }, ⟨t', events⟩) := by
  obtain ⟨events, hentry⟩ := runOn_entryPath config w
  obtain ⟨record, saved, hpersist⟩ :=
    Manifest.runOn_persistEntry (w := ⟨w.tree, events⟩) hload (outDirReference config) entry
  dsimp only at hpersist
  unfold recordStart
  rw [runOn_bind, hentry, h]
  dsimp only
  rw [runOn_bind, hpersist]
  cases w.tree.replaceText path (m.withStart (startScript (outDirReference config) entry)).content with
  | error failure => exact ⟨_, rfl⟩
  | ok t' => exact ⟨_, rfl⟩

/-- A start script was recorded, or there is no entry module. -/
theorem recordStart_cases (hload : Manifest.load w.tree path = .ok m)
    (h : (recordStart config path r).runOn w = (.ok r', w')) :
    (entryIn config w.tree = .ok none ∧ w'.tree = w.tree ∧ Agrees r r')
      ∨ ∃ entry, entryIn config w.tree = .ok (some entry)
          ∧ w.tree.replaceText path (m.withStart (startScript (outDirReference config) entry)).content
            = .ok w'.tree
          ∧ r' = { r with
              entryPath := some entry
              startScript := some (startScript (outDirReference config) entry) } := by
  cases hfound : entryIn config w.tree with
  | error failure =>
    obtain ⟨events, hentry⟩ := runOn_entryPath config w
    unfold recordStart at h
    rw [runOn_bind, hentry, hfound] at h
    cases h
  | ok entry =>
    cases entry with
    | none =>
      obtain ⟨r'', hgives, hagrees⟩ := gives_recordStart_none hfound path r
      obtain ⟨events', hrun⟩ := hgives w.events
      rw [h] at hrun
      cases hrun
      exact .inl ⟨rfl, rfl, hagrees⟩
    | some entry =>
      obtain ⟨events, hrun⟩ := runOn_recordStart hfound hload r
      rw [h] at hrun
      -- an entry was found; a step that returned has saved it
      cases hsave : w.tree.replaceText path
          (m.withStart (startScript (outDirReference config) entry)).content with
      | error failure =>
        rw [hsave] at hrun
        cases hrun
      | ok t' =>
        rw [hsave] at hrun
        cases hrun
        exact .inr ⟨entry, rfl, hsave, rfl⟩

/-- **What recording the start changes**: the manifest and nothing else, and it is a manifest as
before. -/
theorem recordStart_recorded (hfree : LinkFree w.tree) (hp : Path.Straight path)
    (hload : Manifest.load w.tree path = .ok m) (hmodule : m.isModule = true)
    (h : (recordStart config path r).runOn w = (.ok r', w')) :
    w'.tree.workingDir = w.tree.workingDir ∧ HasFile w'.tree (placeOf path)
      ∧ (∀ k, k ≠ placeOf path → w'.tree.entryAt? k = w.tree.entryAt? k)
      ∧ ∃ m', Manifest.load w'.tree path = .ok m' ∧ m'.isModule = true := by
  rcases recordStart_cases hload h with ⟨-, htree, -⟩ | ⟨entry, -, hsave, -⟩
  · rw [htree]
    exact ⟨rfl, Manifest.hasFile_of_load hfree hp hload, fun _ _ => rfl, m, hload, hmodule⟩
  · obtain ⟨old, hread⟩ := Manifest.exists_readBytes_of_load hload
    obtain ⟨bytes, -, hdir, hfile, hothers⟩ := replaceText_straight hfree hp hread hsave
    obtain ⟨-, hloaded⟩ := Manifest.load_saved
      (m := m.withStart (startScript (outDirReference config) entry)) (Manifest.load_eq_ok hload).1
      (Manifest.writable_withStart (Manifest.writable_of_load hload) _)
      (Manifest.takesFile_of_load hload) hsave
    exact ⟨hdir, ⟨bytes, hfile⟩, hothers, _, hloaded, Manifest.isModule_withStart_saved hmodule _⟩

/-- **The start is recorded again**, in the tree that has it already. -/
theorem recordStart_again (hfree : LinkFree w.tree) (hp : Path.Straight path)
    (hload : Manifest.load w.tree path = .ok m) (hmodule : m.isModule = true)
    (h : (recordStart config path r).runOn w = (.ok r', w'))
    (hdir : t.workingDir = w'.tree.workingDir) (hsame : ∀ k, t.entryAt? k = w'.tree.entryAt? k)
    (hagrees : Agrees r ru) :
    ∃ ru' u, Gives (recordStart config path ru) t ru' u ∧ Agrees r' ru'
      ∧ u.workingDir = w'.tree.workingDir ∧ ∀ k, u.entryAt? k = w'.tree.entryAt? k := by
  obtain ⟨hdir', ⟨bytes, hfile⟩, hothers, -⟩ := recordStart_recorded hfree hp hload hmodule h
  obtain ⟨old, hread⟩ := Manifest.exists_readBytes_of_load hload
  have hold := ((readBytes_eq_ok_iff hfree hp).1 hread).2
  have halike : Alike w.tree t := alike_of_file (hdir.trans hdir') hold ((hsame _).trans hfile)
    fun k hk => (hsame k).trans (hothers k hk)
  have hentry := entryIn_alike halike hfree config
  have hfree' : LinkFree t := hfree.of_alike halike.top
  rcases recordStart_cases hload h with ⟨hnone, -, hkept⟩ | ⟨entry, hfound, hsave, rfl⟩
  · obtain ⟨ru', hgives, hkept'⟩ := gives_recordStart_none (hentry.symm.trans hnone) path ru
    exact ⟨ru', t, hgives, hkept.symm.trans (hagrees.trans hkept'), hdir, hsame⟩
  · -- the manifest of the tree is the one that was saved, and is written in the same words
    have hloaded : Manifest.load t path
        = .ok (m.withStart (startScript (outDirReference config) entry)).saved := by
      rw [Manifest.load_congr hfree' hp fun k _ => hsame k]
      exact (Manifest.load_saved
        (m := m.withStart (startScript (outDirReference config) entry)) (Manifest.load_eq_ok hload).1
        (Manifest.writable_withStart (Manifest.writable_of_load hload) _)
        (Manifest.takesFile_of_load hload) hsave).2
    obtain ⟨u, hu⟩ := halike.exists_replaceText hsave
    obtain ⟨new, hnew, -, hfirst, -⟩ := replaceText_straight hfree hp hread hsave
    obtain ⟨old', hread'⟩ := Manifest.exists_readBytes_of_load hloaded
    obtain ⟨new', hnew', hdir'', hsecond, hothers'⟩ := replaceText_straight hfree' hp hread' hu
    rw [hnew] at hnew'
    cases hnew'
    refine ⟨{ ru with
      entryPath := some entry
      startScript := some (startScript (outDirReference config) entry) }, u, fun events => ?_,
      ⟨hagrees.1, hagrees.2, hagrees.3, rfl, rfl⟩, hdir''.trans hdir, fun k => ?_⟩
    · obtain ⟨events', hrun⟩ :=
        runOn_recordStart (w := ⟨t, events⟩) (hentry.symm.trans hfound) hloaded ru
      rw [Manifest.content_withStart_saved] at hrun
      dsimp only at hrun
      rw [hu] at hrun
      exact ⟨events', hrun⟩
    · by_cases hk : k = placeOf path
      · rw [hk, hsecond, hfirst]
      · rw [hothers' k hk, hsame k]

/-- **The end of a build**, if nobody can be asked. -/
theorem gives_conclude (hload : Manifest.load t path = .ok m) (r : BuildResult) :
    ∃ r', Gives (conclude path none r) t r' t ∧ Agrees r r' := by
  have hask : Gives (askAutomation path none) t none t := by
    unfold askAutomation
    refine Gives.bind (x := m) (fun events => ⟨events, by rw [runOn_ask, hload]⟩) ?_
    split
    · exact (gives_log _ _ _ t).bind (gives_pure none t)
    · exact (gives_log _ _ _ t).bind (gives_pure none t)
  refine ⟨{ r with automationChoice := none }, ?_, ⟨rfl, rfl, rfl, rfl, rfl⟩⟩
  unfold conclude recordAutomation
  refine Gives.bind (hask.bind ?_) ((gives_log _ _ _ t).bind (gives_pure _ t))
  rw [if_neg (by simp)]
  exact gives_pure _ t

end Build

end ModuleBuild
