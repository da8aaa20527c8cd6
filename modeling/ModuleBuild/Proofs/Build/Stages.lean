/-
  ModuleBuild.Proofs.Build.Stages
  ───────────────────────────────
  **THE STAGES OF A BUILD, ONE BY ONE.**

  A build asks its question at one point only.  Every stage before that point
  is calm: it puts no question, and what it does to the tree is told by a
  relation between trees.  Calm actions put together are calm, so each stage
  is calm because its steps are; for the stage that makes modules runnable
  this comes down to the replacement of one module.

  The stages up to the compiled sources are one action here, which ends with
  the result so far, or with the failed result that ends the build.

  Main results:
    * `Action.Calm.bind`, `Action.Calm.tryCatch` — calm actions put together;
    * `calm_normalizeModules` — making modules runnable, if the replacement of a module is kept;
    * `runConfigured_eq` — a build is its stages up to the compiler, then the rest.
-/
import ModuleBuild.Build.Run
import ModuleBuild.Proofs.Output.SecondRun

namespace ModuleBuild

variable {α β : Type} {K : FileTree → FileTree → Prop}

/-! ## §1. Calm actions. -/

/-- More has happened, but the automation question was not put. -/
def Quiet (before after : List Event) : Prop :=
  ∃ new, after = before ++ new ∧ ∀ words, Event.asked words ∉ new

theorem Quiet.refl (events : List Event) : Quiet events events :=
  ⟨[], (List.append_nil events).symm, fun _ h => by cases h⟩

theorem Quiet.trans {first second third : List Event} (h : Quiet first second)
    (h' : Quiet second third) : Quiet first third := by
  obtain ⟨new, rfl, hnew⟩ := h
  obtain ⟨more, rfl, hmore⟩ := h'
  refine ⟨new ++ more, List.append_assoc .., fun words hmem => ?_⟩
  rcases List.mem_append.1 hmem with hmem | hmem
  · exact hnew words hmem
  · exact hmore words hmem

theorem quiet_note (events : List Event) {e : Event} (he : ∀ words, e ≠ .asked words) :
    Quiet events (events ++ [e]) :=
  ⟨[e], rfl, fun words hmem => he words (List.mem_singleton.1 hmem).symm⟩

namespace Action

/-- Whether it returns or fails, an action puts no question, and takes a tree to one in a relation
with it. -/
def Calm (K : FileTree → FileTree → Prop) (a : Action α) : Prop :=
  ∀ w, Quiet w.events (a.runOn w).2.events ∧ K w.tree (a.runOn w).2.tree

/-- An edit is no event. -/
theorem calm_lift {e : Edit α} (he : ∀ t, K t (e.runOn t).2) : Calm K (liftM e : Action α) :=
  fun w => ⟨.refl w.events, he w.tree⟩

variable [IsPreorder FileTree K]

theorem calm_pure (x : α) : Calm K (pure x : Action α) :=
  fun w => ⟨.refl w.events, refl_of K w.tree⟩

theorem calm_throw (failure : Failure) : Calm K (throw failure : Action α) :=
  fun w => ⟨.refl w.events, refl_of K w.tree⟩

/-- A step, and what follows on what it can return. -/
theorem Calm.bind {a : Action α} {f : α → Action β} (ha : Calm K a)
    (hf : ∀ x, (∃ w, (a.runOn w).1 = .ok x) → Calm K (f x)) : Calm K (a >>= f) := by
  intro w
  have hfirst := ha w
  rw [runOn_bind]
  rcases hrun : a.runOn w with ⟨failure | x, u⟩
  · rw [hrun] at hfirst
    exact hfirst
  · rw [hrun] at hfirst
    have hrest := hf x ⟨w, by rw [hrun]⟩ u
    exact ⟨hfirst.1.trans hrest.1, trans_of K hfirst.2 hrest.2⟩

theorem Calm.tryCatch {a : Action α} {handler : Failure → Action α} (ha : Calm K a)
    (hh : ∀ failure, Calm K (handler failure)) : Calm K (tryCatch a handler) := by
  intro w
  have hfirst := ha w
  rw [runOn_tryCatch]
  rcases hrun : a.runOn w with ⟨failure | x, u⟩
  · rw [hrun] at hfirst
    have hrest := hh failure u
    exact ⟨hfirst.1.trans hrest.1, trans_of K hfirst.2 hrest.2⟩
  · rw [hrun] at hfirst
    exact hfirst

theorem calm_ask (f : FileTree → Except Failure α) : Calm K (liftM (Edit.ask f) : Action α) :=
  calm_lift fun t => by
    rw [Edit.run_ask]
    exact refl_of K t

theorem calm_view (f : FileTree → α) : Calm K (view f) :=
  fun w => ⟨.refl w.events, refl_of K w.tree⟩

theorem calm_note {e : Event} (he : ∀ words, e ≠ .asked words) : Calm K (note e) :=
  fun w => ⟨quiet_note w.events he, refl_of K w.tree⟩

theorem calm_log (level : Level) (logger message : Text) : Calm K (log level logger message) :=
  calm_note fun _ => Event.noConfusion

theorem calm_forM {f : β → Action PUnit} (hf : ∀ b, Calm K (f b)) :
    ∀ items : List β, Calm K (items.forM f)
  | [] => calm_pure _
  | b :: items => .bind (hf b) fun _ _ => calm_forM hf items

theorem calm_forIn_note {event : β → Event} (he : ∀ b words, event b ≠ .asked words) :
    ∀ items : List β, Calm K (forIn items PUnit.unit fun item _ => do
      note (event item)
      pure (ForInStep.yield PUnit.unit) : Action PUnit)
  | [] => calm_pure _
  | b :: items => by
    rw [List.forIn_cons]
    exact .bind (.bind (calm_note (he b)) fun _ _ => calm_pure _) fun step hstep => by
      obtain ⟨w, hw⟩ := hstep
      cases hw
      exact calm_forIn_note he items

end Action

open ModuleBuild.Action

variable [IsPreorder FileTree K]

/-! ## §2. Stages that read. -/

theorem Listing.calm_all (root : Text) (ignored : NameSet) : Calm K (all root ignored) := by
  unfold all
  refine .bind (calm_ask _) fun sightings _ => .bind ?_ fun _ _ => calm_pure _
  exact calm_forIn_note (fun _ _ => Event.noConfusion) _

theorem Listing.calm_files (root : Text) (endings : List Text) (ignored : NameSet)
    (excluded : List Text) : Calm K (files root endings ignored excluded) :=
  .bind (calm_all root ignored) fun _ _ => calm_pure _

theorem Entry.calm_find (output indexFileName : Text) (ignored : NameSet) :
    Calm K (find output indexFileName ignored) := by
  unfold find
  refine .bind (calm_view _) fun there _ => ?_
  split
  · exact .bind (calm_log _ _ _) fun _ _ => calm_pure _
  · exact .bind (Listing.calm_all output ignored) fun _ _ => .bind (calm_view _) fun _ _ => calm_pure _

/-! ## §3. Tasks over modules. -/

theorem Tasks.calm_guarded {task : Text → Action Bool} {path : Text} (h : Calm K (task path)) :
    Calm K (guarded task path) := by
  unfold guarded
  refine .bind (.tryCatch (.bind h fun _ _ => calm_pure _) fun failure => ?_) fun flow _ => ?_
  · split
    · exact .bind (calm_log _ _ _) fun _ _ => calm_pure _
    · exact .bind (calm_throw failure) fun _ _ => calm_pure _
  · cases flow with
    | error flag => exact calm_pure flag
    | ok flag => exact calm_pure flag

theorem Tasks.calm_runFrom {task : Text → Action Bool} (total : Nat) :
    ∀ (done : Nat) {paths : List Text}, (∀ p ∈ paths, Calm K (task p)) →
      Calm K (runFrom task total done paths)
  | _, [], _ => calm_pure _
  | done, path :: paths, h => by
    have hrest : ∀ p ∈ paths, Calm K (task p) := fun p hp => h p (List.mem_cons_of_mem _ hp)
    refine .bind (calm_guarded (h path (List.mem_cons_self ..))) fun _ _ => ?_
    refine .bind (calm_note fun _ => Event.noConfusion) fun _ _ => ?_
    exact .bind (calm_runFrom total (done + 1) hrest) fun _ _ => calm_pure _

namespace Modules

/-- The replacement of a module keeps a relation, by whatever path the module is listed. -/
def KeptByModules (K : FileTree → FileTree → Prop) : Prop :=
  ∀ t p old text t', Path.isAbsolute p = true →
    Listing.hasEnding [Specifier.moduleExtension] (Path.baseName p) = true →
    t.readBytes p = .ok old → t.replaceText p text = .ok t' → K t t'

theorem calm_changeFile (hkept : KeptByModules K) (f : Text → Text) {p : Text}
    (hp : Path.isAbsolute p = true)
    (hend : Listing.hasEnding [Specifier.moduleExtension] (Path.baseName p) = true) :
    Calm K (changeFile f p) := by
  intro w
  rw [runOn_changeFile]
  refine ⟨.refl w.events, ?_⟩
  rcases changed_cases f p w.tree with ⟨hsame, -⟩ | ⟨text, t', hread, -, hreplace, hchanged⟩
  · dsimp only
    rw [hsame]
    exact refl_of K w.tree
  · dsimp only
    rw [hchanged]
    have hbytes : ∃ old, w.tree.readBytes p = .ok old := by
      unfold FileTree.readText at hread
      cases hold : w.tree.readBytes p with
      | ok old => exact ⟨old, rfl⟩
      | error failure =>
        rw [hold] at hread
        cases hread
    obtain ⟨old, hold⟩ := hbytes
    exact hkept w.tree p old (f text) t' hp hend hold hreplace

theorem calm_completeFile (hkept : KeptByModules K) {p : Text} (hp : Path.isAbsolute p = true)
    (hend : Listing.hasEnding [Specifier.moduleExtension] (Path.baseName p) = true) :
    Calm K (completeFile p) := by
  refine .bind (calm_changeFile hkept _ hp hend) fun changed _ => ?_
  split
  · exact .bind (calm_log _ _ _) fun _ _ => calm_pure _
  · exact calm_pure _

theorem calm_stripFile (hkept : KeptByModules K) (markers : List Text) {p : Text}
    (hp : Path.isAbsolute p = true)
    (hend : Listing.hasEnding [Specifier.moduleExtension] (Path.baseName p) = true) :
    Calm K (stripFile markers p) := by
  refine .bind (calm_changeFile hkept _ hp hend) fun changed _ => ?_
  split
  · exact .bind (calm_log _ _ _) fun _ _ => calm_pure _
  · exact calm_pure _

/-- The modules that are listed have absolute paths with the ending of modules. -/
theorem isModulePath_of_list {root : Text} {ignored : NameSet} {w : World} {modules : List Text}
    (h : ((list root ignored).runOn w).1 = .ok modules) {p : Text} (hp : p ∈ modules) :
    Path.isAbsolute p = true
      ∧ Listing.hasEnding [Specifier.moduleExtension] (Path.baseName p) = true := by
  obtain ⟨events, hrun⟩ := Listing.runOn_files root [Specifier.moduleExtension] ignored [] w
  unfold list at h
  rw [hrun] at h
  cases hwalk : w.tree.walk root ignored with
  | error failure =>
    rw [hwalk] at h
    cases h
  | ok sightings =>
    rw [hwalk] at h
    cases h
    refine ⟨Listing.isAbsolute_of_mem_paths hwalk hp, ?_⟩
    obtain ⟨e, he, rfl⟩ := List.mem_map.1 hp
    have hpicked := (List.mem_filter.1 he).2
    rw [Bool.and_eq_true, Bool.and_eq_true] at hpicked
    exact hpicked.1.2

theorem calm_completeAll (hkept : KeptByModules K) (root : Text) (ignored : NameSet) :
    Calm K (completeAll root ignored) := by
  refine .bind (Listing.calm_files _ _ _ _) fun modules hmodules => .bind (calm_log _ _ _) fun _ _ => ?_
  obtain ⟨w, hw⟩ := hmodules
  have htasks : Calm K (Tasks.run modules completeFile) :=
    Tasks.calm_runFrom _ 0 fun p hp =>
      calm_completeFile hkept (isModulePath_of_list hw hp).1 (isModulePath_of_list hw hp).2
  exact .bind htasks fun _ _ => .bind (calm_log _ _ _) fun _ _ => calm_pure _

theorem calm_stripAll (hkept : KeptByModules K) (root : Text) (markerNames : List Text)
    (ignored : NameSet) : Calm K (stripAll root markerNames ignored) := by
  unfold stripAll
  dsimp only
  split
  · exact .bind (calm_log _ _ _) fun _ _ => calm_pure _
  · refine .bind (Listing.calm_files _ _ _ _) fun modules hmodules => ?_
    obtain ⟨w, hw⟩ := hmodules
    have htasks : Calm K (Tasks.run modules (stripFile (Specifier.markerStems markerNames))) :=
      Tasks.calm_runFrom _ 0 fun p hp =>
        calm_stripFile hkept _ (isModulePath_of_list hw hp).1 (isModulePath_of_list hw hp).2
    exact .bind htasks fun _ _ => .bind (calm_log _ _ _) fun _ _ => calm_pure _

end Modules

/-! ## §4. Stages that ask nothing. -/

/-- Trees of which nothing is said. -/
def AnyTree (_ _ : FileTree) : Prop := True

instance : IsPreorder FileTree AnyTree where
  refl _ := trivial
  trans _ _ _ _ _ := trivial

theorem Toolchain.calm_run {tool : Edit Int} (label : Text) (r : ToolRun)
    (htool : ∀ t, K t (tool.runOn t).2) : Calm K (Toolchain.run label r tool) := by
  unfold Toolchain.run
  refine .bind (calm_log _ _ _) fun _ _ => .bind (calm_note fun _ => Event.noConfusion) fun _ _ => ?_
  refine .bind (.tryCatch (.bind (calm_lift htool) fun code _ => ?_) fun failure => ?_) fun flow _ => ?_
  · split <;> exact calm_pure _
  · split
    · exact calm_pure _
    · exact .bind (calm_throw failure) fun _ _ => calm_pure _
  · cases flow with
    | error fault => exact calm_pure fault
    | ok fault => exact calm_pure fault

namespace Assets

theorem calm_attempt {step : Action α} (h : Calm K step) : Calm K (attempt step) := by
  refine .tryCatch (.bind h fun _ _ => calm_pure _) fun failure => ?_
  split
  · exact calm_pure _
  · exact calm_throw failure

theorem calm_clear (dest : Text) : Calm AnyTree (clear dest) := by
  refine .bind (calm_view _) fun there _ => ?_
  split
  · refine .bind (calm_lift fun _ => trivial) fun _ _ => ?_
    exact .bind (calm_log _ _ _) fun _ _ => calm_pure _
  · exact calm_pure _

theorem calm_copy (source output asset : Text) (r : Report) :
    Calm AnyTree (copy source output asset r) := by
  have hrefuse : ∀ r failure, Calm AnyTree (refuse source asset r failure) := fun r failure =>
    .bind (calm_log _ _ _) fun _ _ => calm_pure _
  refine .bind (calm_attempt (calm_clear _)) fun cleared _ => ?_
  cases cleared with
  | error failure => exact hrefuse r failure
  | ok removed =>
    refine .bind (calm_attempt (calm_lift fun _ => trivial)) fun copied _ => ?_
    cases copied with
    | error failure => exact hrefuse _ failure
    | ok _ => exact .bind (calm_log _ _ _) fun _ _ => calm_pure _

theorem calm_placeOne (source output asset : Text) (r : Report) :
    Calm AnyTree (placeOne source output asset r) := by
  refine .bind (calm_ask _) fun verdict _ => ?_
  split
  · exact .bind (calm_log _ _ _) fun _ _ => calm_pure _
  · exact calm_copy source output asset r

theorem calm_placeFrom (source output : Text) (total : Nat) :
    ∀ (assets : List Text) (done : Nat) (r : Report),
      Calm AnyTree (placeFrom source output total done r assets)
  | [], _, r => calm_pure r
  | asset :: assets, done, r => by
    refine .bind (calm_placeOne source output asset r) fun r' _ => ?_
    refine .bind (calm_note fun _ => Event.noConfusion) fun _ _ => ?_
    exact calm_placeFrom source output total assets (done + 1) r'

theorem calm_place (assets : List Text) (source output : Text) :
    Calm AnyTree (place assets source output) := by
  unfold place
  split
  · exact .bind (calm_log _ _ _) fun _ _ => calm_pure _
  · refine .bind (calm_placeFrom source output _ assets 0 .empty) fun _ _ => ?_
    exact .bind (calm_log _ _ _) fun _ _ => calm_pure _

end Assets

namespace Manifest

theorem calm_save (m : Manifest) (hsave : ∀ t t', t.replaceText m.path m.content = .ok t' → K t t') :
    Calm K (save m) := by
  refine .bind (calm_lift fun t => ?_) fun _ _ => calm_log _ _ _
  rw [Edit.run_change]
  cases hreplace : t.replaceText m.path m.content with
  | error failure => exact refl_of K t
  | ok t' => exact hsave t t' hreplace

theorem calm_persistEntry (path outDir entry : Text) :
    Calm AnyTree (persistEntry path outDir entry) := by
  refine .bind (calm_ask _) fun m _ => .bind ?_ fun _ _ => ?_
  · exact .bind (calm_log _ _ _) fun _ _ => calm_pure _
  · exact .bind (calm_save _ fun _ _ _ => trivial) fun _ _ => calm_pure _

end Manifest

namespace Build

theorem calm_warn (r : BuildResult) (words : Text) : Calm K (warn r words) :=
  .bind (calm_log _ _ _) fun _ _ => calm_pure _

theorem calm_fail (error projectDir : Text) (config : Option Config)
    (warnings entryPoints : List Text) (durationMs : Int) :
    Calm K (fail error projectDir config warnings entryPoints durationMs) :=
  .bind (calm_log _ _ _) fun _ _ => calm_pure _

/-- **Making modules runnable is calm**, if the replacement of a module is. -/
theorem calm_normalizeModules (hkept : Modules.KeptByModules K) (config : Config) (r : BuildResult) :
    Calm K (normalizeModules config r) := by
  unfold normalizeModules
  refine .bind (calm_view _) fun there _ => ?_
  split
  · exact .bind (calm_warn r _) fun _ _ => calm_pure _
  · refine .bind (calm_note fun _ => Event.noConfusion) fun _ _ => ?_
    refine .bind (Modules.calm_completeAll hkept _ _) fun completed _ => ?_
    dsimp only
    split
    · exact .bind (calm_warn { r with completedModules := completed } _) fun _ _ => calm_pure _
    · refine .bind (calm_note fun _ => Event.noConfusion) fun _ _ => ?_
      exact .bind (Modules.calm_stripAll hkept _ _ _) fun _ _ => calm_pure _

theorem calm_placeAssets (config : Config) (r : BuildResult) :
    Calm AnyTree (placeAssets config r) := by
  unfold placeAssets
  split
  · exact .bind (calm_warn r _) fun _ _ => calm_pure _
  · refine .bind (calm_note fun _ => Event.noConfusion) fun _ _ => ?_
    exact .bind (Assets.calm_place _ _ _) fun _ _ => calm_pure _

theorem calm_entryPath (config : Config) : Calm K (entryPath config) := by
  unfold entryPath
  split
  · exact .bind (calm_log _ _ _) fun _ _ => calm_pure _
  · exact Entry.calm_find _ _ _

theorem calm_recordStart (config : Config) (manifest : Text) (r : BuildResult) :
    Calm AnyTree (recordStart config manifest r) := by
  refine .bind (calm_entryPath config) fun entry _ => ?_
  cases entry with
  | none => exact calm_warn r _
  | some path => exact .bind (Manifest.calm_persistEntry _ _ _) fun _ _ => calm_pure _

/-- Without an output nothing is made runnable. -/
theorem normalizeModules_of_vacant {config : Config} {t : FileTree}
    (hout : t.namesDirectory config.outDir = false) (r : BuildResult) (events : List Event) :
    ∃ r' events', (normalizeModules config r).runOn ⟨t, events⟩ = (.ok r', ⟨t, events'⟩)
      ∧ r'.ok = r.ok := by
  have hview : (Action.view (·.namesDirectory config.outDir)).runOn ⟨t, events⟩
      = (.ok false, ⟨t, events⟩) :=
    congrArg (fun b => ((.ok b, ⟨t, events⟩) : Except Failure Bool × World)) hout
  unfold normalizeModules
  rw [runOn_bind, hview]
  exact ⟨_, _, rfl, rfl⟩

/-! ## §5. A build in two parts. -/

/-- The type check of a build, if there is one. -/
def checkTypes (tools : Toolchain) (request : BuildRequest) (projectDir : Text) (config : Config) :
    Action (Option Text) :=
  if config.strict && !request.skipTypeCheck then tools.checkTypes projectDir else pure none

/-- A build from the result of its type check up to the compiled sources. -/
def compileChecked (tools : Toolchain) (request : BuildRequest) (projectDir : Text)
    (config : Config) (warnings : List Text) (typeFault : Option Text) :
    Action (Except BuildResult BuildResult) := do
  match typeFault with
  | some fault =>
    return .error (← fail (Text.join ["Types check failed. Fix your TypeScript errors before building. (",
      fault, ")"]) projectDir (some config) warnings [] request.durationMs)
  | none =>
    let inputs ← sources config
    Action.log .info logger
      (Text.join ["Found ", Text.ofNat inputs.length, " TypeScript files under ",
        config.rootDir])
    match ← tools.compileSources ⟨inputs, config.outDir, some config.rootDir⟩ projectDir with
    | some fault =>
      return .error (← fail (Text.join ["Build failed: ", fault]) projectDir (some config) warnings
        inputs request.durationMs)
    | none =>
      return .ok { BuildResult.completed config inputs request.durationMs with warnings := warnings }

/-- A build up to the compiled sources: the result so far, or the failed result that ends it. -/
def compileAll (tools : Toolchain) (request : BuildRequest) (projectDir : Text) (config : Config)
    (warnings : List Text) : Action (Except BuildResult BuildResult) := do
  warnings.forM (Action.log .warning logger)
  let typeFault ← checkTypes tools request projectDir config
  compileChecked tools request projectDir config warnings typeFault

/-- The end of a build: the question, and the words of success. -/
def conclude (manifest : Text) (prompt : Option Prompt) (r : BuildResult) : Action BuildResult := do
  let r ← recordAutomation manifest prompt r
  Action.log .info logger
    (Text.join ["Build completed successfully in duration ", Text.ofInt r.durationMs, " ms."])
  return r

theorem finish_eq (config : Config) (manifest : Text) (prompt : Option Prompt) (r : BuildResult) :
    finish config manifest prompt r = (do
      let r ← normalizeModules config r
      let r ← placeAssets config r
      let r ← recordStart config manifest r
      conclude manifest prompt r) := rfl

/-- **A build is its part up to the compiled sources, and the rest** unless that part has failed. -/
theorem runConfigured_eq (tools : Toolchain) (request : BuildRequest) (projectDir : Text)
    (config : Config) (warnings : List Text) :
    runConfigured tools request projectDir config warnings = (do
      match ← compileAll tools request projectDir config warnings with
      | .error r => return r
      | .ok r => finish config (Manifest.pathIn projectDir) request.prompt r) := by
  unfold runConfigured compileAll checkTypes
  rw [bind_assoc]
  refine bind_congr fun _ => ?_
  rw [bind_assoc]
  cases config.strict && !request.skipTypeCheck
  all_goals
    refine bind_congr fun typeFault => ?_
    unfold compileChecked
    cases typeFault with
    | some fault => rfl
    | none =>
      dsimp only
      rw [bind_assoc]
      refine bind_congr fun inputs => ?_
      rw [bind_assoc]
      refine bind_congr fun _ => ?_
      rw [bind_assoc]
      refine bind_congr fun fault => ?_
      cases fault with
      | some fault => rfl
      | none => rfl

/-- The first part of a build is calm if its tools are. -/
theorem calm_compileAll {tools : Toolchain} (htypes : ∀ t, K t (tools.typeCheck.runOn t).2)
    (hcompile : ∀ c t, K t ((tools.compile c).runOn t).2) (request : BuildRequest)
    (projectDir : Text) (config : Config) (warnings : List Text) :
    Calm K (compileAll tools request projectDir config warnings) := by
  have hcheck : Calm K (tools.checkTypes projectDir) := by
    refine .bind (calm_log _ _ _) fun _ _ => .bind (Toolchain.calm_run _ _ htypes) fun fault _ => ?_
    split
    · exact .bind (calm_log _ _ _) fun _ _ => calm_pure _
    · exact calm_pure _
  have hchecked : Calm K (checkTypes tools request projectDir config) := by
    unfold checkTypes
    split
    · exact hcheck
    · exact calm_pure _
  have hsources : ∀ c, Calm K (tools.compileSources c projectDir) := by
    intro c
    unfold Toolchain.compileSources
    split
    · exact .bind (calm_log _ _ _) fun _ _ => calm_pure _
    · exact .bind (calm_log _ _ _) fun _ _ => Toolchain.calm_run _ _ (hcompile c)
  refine .bind (calm_forM (fun _ => calm_log _ _ _) warnings) fun _ _ => ?_
  refine .bind hchecked fun typeFault _ => ?_
  cases typeFault with
  | some fault => exact .bind (calm_fail _ _ _ _ _ _) fun _ _ => calm_pure _
  | none =>
    refine .bind (Listing.calm_files _ _ _ _) fun inputs _ => .bind (calm_log _ _ _) fun _ _ => ?_
    refine .bind (hsources _) fun fault _ => ?_
    cases fault with
    | some fault => exact .bind (calm_fail _ _ _ _ _ _) fun _ _ => calm_pure _
    | none => exact calm_pure _

end Build

end ModuleBuild
