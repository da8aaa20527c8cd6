/-
  ModuleBuild.Proofs.Build.FailedBuild
  ────────────────────────────────────
  **A FAILED BUILD WRITES NOTHING OF ITS OWN.**

  A build works on the output only after the last point at which it can end
  with a failed result.  What comes before that point reads and logs, and
  starts the two outside tools.  A world is therefore told apart from the one
  before by the list of tools that ran: their edits, one after the other, make
  the tree, and nothing but records and starts of tools was noted.

  Such worlds follow one on another, so what holds of a step holds of the
  build.

  Main results:
    * `LeftByTools.trans` — what is left by tools twice is left by all of them;
    * `startsOnly_compileAll` — up to the compiled sources only the tools write, however it ends;
    * `ok_of_finish` — with its sources compiled, a build returns no failed result;
    * `leftByTools_of_failed` — so a failed build has left the tree to its tools.
-/
import ModuleBuild.Proofs.Build.AskedOnce

namespace ModuleBuild

open ModuleBuild.Action

variable {α β : Type}

/-! ## §1. Worlds that only tools have changed. -/

/-- A tool as it is started, and what it does to the tree. -/
abbrev StartedTool := ToolRun × Edit Int

/-- The tree after some tools have run, one after the other, whether they failed or not. -/
def treeAfter (t : FileTree) (started : List StartedTool) : FileTree :=
  started.foldl (fun t s => (s.2.runOn t).2) t

theorem treeAfter_append (t : FileTree) (first second : List StartedTool) :
    treeAfter t (first ++ second) = treeAfter (treeAfter t first) second :=
  List.foldl_append ..

/-- Each of some tools, on the tree that it finds, keeps what can be seen of it in some way. -/
def EachKeeps {γ : Type} (f : FileTree → γ) : FileTree → List StartedTool → Prop
  | _, [] => True
  | t, s :: rest => f (s.2.runOn t).2 = f t ∧ EachKeeps f (s.2.runOn t).2 rest

theorem EachKeeps.treeAfter {γ : Type} {f : FileTree → γ} {t : FileTree} {started : List StartedTool}
    (h : EachKeeps f t started) : f (treeAfter t started) = f t := by
  induction started generalizing t with
  | nil => rfl
  | cons s rest ih =>
    obtain ⟨hfirst, hrest⟩ := h
    exact (ih hrest).trans hfirst

namespace Event

/-- The tool whose start an event is. -/
def toolRun? : Event → Option ToolRun
  | .toolRan r => some r
  | _ => none

/-- Whether an event is a record or the start of a tool: neither the question nor a stage that works on
the output. -/
def isPreparation : Event → Bool
  | .logged _ | .toolRan _ => true
  | .stageBegan _ | .stageAdvanced _ | .asked _ => false

end Event

/-- Between two worlds just these tools ran, in this order, and nothing else has changed the tree; what
was noted are records and the starts of the tools. -/
structure LeftByTools (started : List StartedTool) (before after : World) : Prop where
  tree : after.tree = treeAfter before.tree started
  events : ∃ new, after.events = before.events ++ new ∧ (∀ e ∈ new, e.isPreparation = true)
    ∧ new.filterMap Event.toolRun? = started.map (·.1)

namespace LeftByTools

variable {first second started : List StartedTool} {u v w : World}

theorem refl (w : World) : LeftByTools [] w w :=
  ⟨rfl, [], (List.append_nil _).symm, fun _ h => absurd h List.not_mem_nil, rfl⟩

/-- What is left by tools twice is left by all of them. -/
theorem trans (h : LeftByTools first u v) (h' : LeftByTools second v w) :
    LeftByTools (first ++ second) u w := by
  obtain ⟨htree, new, hevents, hnew, hruns⟩ := h
  obtain ⟨htree', more, hevents', hmore, hruns'⟩ := h'
  refine ⟨by rw [htree', htree, treeAfter_append], new ++ more, ?_, fun e he => ?_, ?_⟩
  · rw [hevents', hevents, List.append_assoc]
  · rcases List.mem_append.1 he with he | he
    · exact hnew e he
    · exact hmore e he
  · rw [List.filterMap_append, hruns, hruns', List.map_append]

theorem log (level : Level) (logger message : Text) (w : World) :
    LeftByTools [] w ((Action.log level logger message).runOn w).2 :=
  ⟨rfl, [_], rfl, fun e he => by rw [List.mem_singleton.1 he]; rfl, rfl⟩

/-- What each of the tools keeps as it runs, they keep together. -/
theorem kept (h : LeftByTools started u v) {γ : Type} {f : FileTree → γ}
    (hkept : EachKeeps f u.tree started) : f v.tree = f u.tree := by
  rw [h.tree]
  exact hkept.treeAfter

end LeftByTools

/-! ## §2. Actions that leave the tree to tools. -/

namespace Action

/-- However it ends, an action has left the tree to a list of tools with a property. -/
def StartsOnly (P : List StartedTool → Prop) (a : Action α) : Prop :=
  ∀ w, ∃ started, P started ∧ LeftByTools started w (a.runOn w).2

/-- An action that starts no tool: it reads and logs. -/
def StartsNone (a : Action α) : Prop := StartsOnly (· = []) a

variable {P Q R : List StartedTool → Prop}

theorem StartsNone.leftByTools {a : Action α} (ha : StartsNone a) (w : World) :
    LeftByTools [] w (a.runOn w).2 := by
  obtain ⟨_, rfl, h⟩ := ha w
  exact h

theorem StartsOnly.mono {a : Action α} (ha : StartsOnly P a) (hPQ : ∀ started, P started → Q started) :
    StartsOnly Q a := fun w => by
  obtain ⟨started, hP, h⟩ := ha w
  exact ⟨started, hPQ started hP, h⟩

/-- A step, and what follows on it: the tools of the first, or those of both if it returns. -/
theorem StartsOnly.bind {a : Action α} {f : α → Action β} (ha : StartsOnly P a)
    (hf : ∀ x, StartsOnly Q (f x)) (hfirst : ∀ first, P first → R first)
    (hboth : ∀ first second, P first → Q second → R (first ++ second)) : StartsOnly R (a >>= f) := by
  intro w
  obtain ⟨first, hP, hleft⟩ := ha w
  rw [runOn_bind]
  rcases hrun : a.runOn w with ⟨failure | x, u⟩
  · rw [hrun] at hleft
    exact ⟨first, hfirst first hP, hleft⟩
  · rw [hrun] at hleft
    obtain ⟨second, hQ, hleft'⟩ := hf x u
    exact ⟨first ++ second, hboth first second hP hQ, hleft.trans hleft'⟩

/-- A step without tools, and what follows on it. -/
theorem StartsOnly.after {a : Action α} {f : α → Action β} (ha : StartsNone a)
    (hf : ∀ x, StartsOnly Q (f x)) (hnil : Q []) : StartsOnly Q (a >>= f) := by
  refine StartsOnly.bind ha hf ?_ ?_
  · rintro _ rfl
    exact hnil
  · rintro _ second rfl hQ
    exact hQ

/-- A step, and what follows on it without tools. -/
theorem StartsOnly.before {a : Action α} {f : α → Action β} (ha : StartsOnly P a)
    (hf : ∀ x, StartsNone (f x)) : StartsOnly P (a >>= f) := by
  refine StartsOnly.bind ha hf (fun _ h => h) ?_
  rintro first _ hP rfl
  rwa [List.append_nil]

theorem StartsNone.bind {a : Action α} {f : α → Action β} (ha : StartsNone a)
    (hf : ∀ x, StartsNone (f x)) : StartsNone (a >>= f) := StartsOnly.before ha hf

theorem startsNone_pure (x : α) : StartsNone (pure x : Action α) := fun w => ⟨[], rfl, .refl w⟩

theorem startsNone_log (level : Level) (logger message : Text) :
    StartsNone (log level logger message) :=
  fun w => ⟨[], rfl, .log level logger message w⟩

theorem startsNone_ask (f : FileTree → Except Failure α) :
    StartsNone (liftM (Edit.ask f) : Action α) := fun w => ⟨[], rfl, by rw [runOn_ask]; exact .refl w⟩

theorem startsNone_forM {f : β → Action PUnit} (hf : ∀ b, StartsNone (f b)) :
    ∀ items : List β, StartsNone (items.forM f)
  | [] => startsNone_pure _
  | b :: items => .bind (hf b) fun _ => startsNone_forM hf items

theorem startsNone_forIn_log : ∀ records : List Record,
    StartsNone (forIn records PUnit.unit fun record _ => do
      note (.logged record)
      pure (ForInStep.yield PUnit.unit) : Action PUnit)
  | [] => startsNone_pure _
  | record :: records => by
    rw [List.forIn_cons]
    intro w
    -- the record is noted, and the others follow
    obtain ⟨_, rfl, hrest⟩ := startsNone_forIn_log records ⟨w.tree, w.events ++ [.logged record]⟩
    exact ⟨[], rfl, (LeftByTools.log record.level record.logger record.message w).trans hrest⟩

end Action

theorem Listing.startsNone_files (root : Text) (endings : List Text) (ignored : NameSet)
    (excluded : List Text) : StartsNone (files root endings ignored excluded) := by
  have hall : StartsNone (all root ignored) := by
    unfold all
    refine .bind (startsNone_ask _) fun sightings => ?_
    exact .bind (startsNone_forIn_log _) fun _ => startsNone_pure _
  exact .bind hall fun _ => startsNone_pure _

namespace Toolchain

/-- A tool that is run is the only one, and all that has changed the tree: also when it fails to start,
or fails half-way. -/
theorem startsOnly_run (label : Text) (r : ToolRun) (tool : Edit Int) :
    StartsOnly (· = [(r, tool)]) (run label r tool) := by
  intro w
  refine ⟨_, rfl, ?_⟩
  have hstarted : LeftByTools [(r, tool)] w
      ⟨(tool.runOn w.tree).2, w.events ++
        [.logged ⟨.debug, logger, Text.join ["Running ", label, ": ", Text.joinWith " " r.command]⟩] ++
        [.toolRan r]⟩ := by
    refine ⟨rfl, [_, .toolRan r], List.append_assoc .., fun e he => ?_, rfl⟩
    rcases List.mem_cons.1 he with rfl | he
    · rfl
    · rw [List.mem_singleton.1 he]
      rfl
  unfold run
  rw [runOn_bind, runOn_log]
  dsimp only
  rw [runOn_bind, runOn_note]
  dsimp only
  -- whether the tool ends well, fails, or cannot be started, the tree is the one that it left
  rw [runOn_bind, runOn_tryCatch, runOn_bind, runOn_lift]
  rcases hrun : tool.runOn w.tree with ⟨failure | code, t⟩
  · rw [hrun] at hstarted
    dsimp only
    cases failure.isSystemFault
    · exact hstarted
    · exact hstarted
  · rw [hrun] at hstarted
    dsimp only
    by_cases hcode : code = 0
    · rw [if_pos hcode]
      exact hstarted
    · rw [if_neg hcode]
      exact hstarted

/-- The two tools of a build in a project, in their order. -/
def inOrder (tools : Toolchain) (projectDir : Text) (c : Compilation) : List StartedTool :=
  [(⟨typeCheckCommand tools.launcher, projectDir⟩, tools.typeCheck),
   (⟨compileCommand tools.launcher c, projectDir⟩, tools.compile c)]

theorem startsOnly_checkTypes (tools : Toolchain) (projectDir : Text) :
    StartsOnly (fun started => started = [(⟨typeCheckCommand tools.launcher, projectDir⟩, tools.typeCheck)]
        ∨ started = [])
      (tools.checkTypes projectDir) := by
  refine .after (startsNone_log _ _ _) (fun _ => ?_) (.inr rfl)
  refine .before (.mono (startsOnly_run _ _ _) fun _ h => .inl h) fun fault => ?_
  split
  · exact .bind (startsNone_log _ _ _) fun _ => startsNone_pure _
  · exact startsNone_pure _

theorem startsOnly_compileSources (tools : Toolchain) (c : Compilation) (projectDir : Text) :
    StartsOnly (fun started => started
        = [(⟨compileCommand tools.launcher c, projectDir⟩, tools.compile c)] ∨ started = [])
      (tools.compileSources c projectDir) := by
  unfold compileSources
  split
  · refine StartsOnly.mono ?_ fun _ h => .inr h
    exact StartsNone.bind (startsNone_log _ _ _) fun _ => startsNone_pure _
  · refine .after (startsNone_log _ _ _) (fun _ => ?_) (.inr rfl)
    exact .mono (startsOnly_run _ _ _) fun _ h => .inl h

end Toolchain

namespace Build

variable {tools : Toolchain} {request : BuildRequest} {projectDir : Text} {config : Config}
  {warnings : List Text}

theorem startsNone_fail (error projectDir : Text) (config : Option Config)
    (warnings entryPoints : List Text) (durationMs : Int) :
    StartsNone (fail error projectDir config warnings entryPoints durationMs) :=
  .bind (startsNone_log _ _ _) fun _ => startsNone_pure _

/-- The first tool that a build may start. -/
theorem startsOnly_checkTypes (tools : Toolchain) (request : BuildRequest) (projectDir : Text)
    (config : Config) :
    StartsOnly
      (fun started => started
        = [(⟨Toolchain.typeCheckCommand tools.launcher, projectDir⟩, tools.typeCheck)] ∨ started = [])
      (checkTypes tools request projectDir config) := by
  unfold checkTypes
  split
  · exact tools.startsOnly_checkTypes projectDir
  · exact .mono (startsNone_pure _) fun _ h => .inr h

/-- The second tool, which is not started after a fault in the types. -/
theorem startsOnly_compileChecked (tools : Toolchain) (request : BuildRequest) (projectDir : Text)
    (config : Config) (warnings : List Text) (typeFault : Option Text) :
    StartsOnly
      (fun started => ∃ c, started
        = [(⟨Toolchain.compileCommand tools.launcher c, projectDir⟩, tools.compile c)] ∨ started = [])
      (compileChecked tools request projectDir config warnings typeFault) := by
  let c₀ : Compilation := ⟨[], [], none⟩
  unfold compileChecked
  cases typeFault with
  | some fault =>
    refine StartsOnly.mono (P := (· = [])) ?_ fun _ h => ⟨c₀, .inr h⟩
    exact StartsNone.bind (startsNone_fail _ _ _ _ _ _) fun _ => startsNone_pure _
  | none =>
    refine .after (Listing.startsNone_files _ _ _ _) (fun inputs => ?_) ⟨c₀, .inr rfl⟩
    refine .after (startsNone_log _ _ _) (fun _ => ?_) ⟨c₀, .inr rfl⟩
    refine .before (.mono (tools.startsOnly_compileSources _ projectDir) fun _ h => ⟨_, h⟩)
      fun fault => ?_
    cases fault with
    | some fault => exact .bind (startsNone_fail _ _ _ _ _ _) fun _ => startsNone_pure _
    | none => exact startsNone_pure _

/-- **Up to the compiled sources only the tools write**, however that part of a build ends. -/
theorem startsOnly_compileAll (tools : Toolchain) (request : BuildRequest) (projectDir : Text)
    (config : Config) (warnings : List Text) :
    StartsOnly (fun started => ∃ c, started.Sublist (tools.inOrder projectDir c))
      (compileAll tools request projectDir config warnings) := by
  let c₀ : Compilation := ⟨[], [], none⟩
  refine .after (startsNone_forM (fun _ => startsNone_log _ _ _) warnings) (fun _ => ?_)
    ⟨c₀, List.nil_sublist _⟩
  refine .bind (startsOnly_checkTypes tools request projectDir config)
    (startsOnly_compileChecked tools request projectDir config warnings) ?_ ?_
  · -- the types were checked, or not, and nothing came of it
    rintro first (rfl | rfl)
    · exact ⟨c₀, (List.nil_sublist _).cons_cons _⟩
    · exact ⟨c₀, List.nil_sublist _⟩
  · -- what the second part starts comes behind what the first one has started
    rintro first second hfirst ⟨c, hsecond⟩
    refine ⟨c, ?_⟩
    show (first ++ second).Sublist ([_] ++ [_])
    refine List.Sublist.append ?_ ?_
    · rcases hfirst with rfl | rfl
      · exact List.Sublist.refl _
      · exact List.nil_sublist _
    · rcases hsecond with rfl | rfl
      · exact List.Sublist.refl _
      · exact List.nil_sublist _

/-! ## §3. The stages after the compiler do not fail a build. -/

theorem ok_of_warn {w u : World} {r r' : BuildResult} {words : Text}
    (h : (warn r words).runOn w = (.ok r', u)) : r'.ok = r.ok := by
  cases h
  rfl

theorem ok_of_normalizeModules {w u : World} {r r' : BuildResult}
    (h : (normalizeModules config r).runOn w = (.ok r', u)) : r'.ok = r.ok := by
  unfold normalizeModules at h
  obtain ⟨there, _, -, h⟩ := exists_of_runOn_bind h
  split at h
  · exact ok_of_warn h
  · obtain ⟨_, _, -, h⟩ := exists_of_runOn_bind h
    obtain ⟨completed, _, -, h⟩ := exists_of_runOn_bind h
    dsimp only at h
    split at h
    · have hok := ok_of_warn h
      exact hok
    · obtain ⟨_, _, -, h⟩ := exists_of_runOn_bind h
      obtain ⟨_, _, -, h⟩ := exists_of_runOn_bind h
      cases h
      rfl

theorem ok_of_placeAssets {w u : World} {r r' : BuildResult}
    (h : (placeAssets config r).runOn w = (.ok r', u)) : r'.ok = r.ok := by
  unfold placeAssets at h
  split at h
  · exact ok_of_warn h
  · obtain ⟨_, _, -, h⟩ := exists_of_runOn_bind h
    obtain ⟨_, _, -, h⟩ := exists_of_runOn_bind h
    cases h
    rfl

theorem ok_of_recordStart {w u : World} {manifest : Text} {r r' : BuildResult}
    (h : (recordStart config manifest r).runOn w = (.ok r', u)) : r'.ok = r.ok := by
  obtain ⟨entry, _, -, h⟩ := exists_of_runOn_bind h
  cases entry with
  | none => exact ok_of_warn h
  | some path =>
    obtain ⟨_, _, -, h⟩ := exists_of_runOn_bind h
    cases h
    rfl

theorem ok_of_conclude {w u : World} {manifest : Text} {prompt : Option Prompt} {r r' : BuildResult}
    (h : (conclude manifest prompt r).runOn w = (.ok r', u)) : r'.ok = r.ok := by
  obtain ⟨recorded, v, hrecord, h⟩ := exists_of_runOn_bind h
  obtain ⟨_, _, -, h⟩ := exists_of_runOn_bind h
  cases h
  obtain ⟨choice, _, -, hrecord⟩ := exists_of_runOn_bind hrecord
  dsimp only at hrecord
  split at hrecord
  · have hok := ok_of_warn hrecord
    exact hok
  · cases hrecord
    rfl

/-- **With its sources compiled, a build returns no failed result.** -/
theorem ok_of_finish {w u : World} {manifest : Text} {prompt : Option Prompt} {r r' : BuildResult}
    (h : (finish config manifest prompt r).runOn w = (.ok r', u)) : r'.ok = r.ok := by
  rw [finish_eq] at h
  obtain ⟨r1, _, hnormalize, h⟩ := exists_of_runOn_bind h
  obtain ⟨r2, _, hplace, h⟩ := exists_of_runOn_bind h
  obtain ⟨r3, _, hstart, h⟩ := exists_of_runOn_bind h
  calc r'.ok = r3.ok := ok_of_conclude h
    _ = r2.ok := ok_of_recordStart hstart
    _ = r1.ok := ok_of_placeAssets hplace
    _ = r.ok := ok_of_normalizeModules hnormalize

/-! ## §4. A failed build. -/

theorem leftByTools_begun (w : World) : LeftByTools [] w (begun w) := .log _ _ _ w

/-- **A failed build writes nothing of its own.**  Its result tells of no work on the output; some of
the two tools ran, in their order, and their edits alone made the tree what it is; what was noted are
records and the starts of these tools, so that nobody was asked and no stage on the output began.
If these tools leave the manifest alone, it holds what it held. -/
theorem leftByTools_of_failed {tools : Toolchain} {request : BuildRequest} {w u : World}
    {r : BuildResult} (h : (run tools request).runOn w = (.ok r, u)) (hfailed : r.ok = false) :
    (∃ error config warnings inputs,
        r = .failed error (projectOf request w) config warnings inputs request.durationMs)
      ∧ ∃ c started, started.Sublist (tools.inOrder (projectOf request w) c)
          ∧ LeftByTools started w u
          ∧ (EachKeeps (·.readBytes (Manifest.pathIn (projectOf request w))) w.tree started →
              u.tree.readBytes (Manifest.pathIn (projectOf request w))
                = w.tree.readBytes (Manifest.pathIn (projectOf request w))) := by
  have hends : (∃ error config warnings inputs,
        r = .failed error (projectOf request w) config warnings inputs request.durationMs)
      ∧ ∃ c started, started.Sublist (tools.inOrder (projectOf request w) c)
          ∧ LeftByTools started w u := by
    rw [runOn_run] at h
    cases hconfigured : configured request w with
    | error failure =>
      -- no tool has run before the configuration is there
      rw [hconfigured] at h
      dsimp only at h
      split at h
      · have hleft := (startsNone_fail failure.message (projectOf request w) none [] []
          request.durationMs).leftByTools (begun w)
        rw [h] at hleft
        cases h
        exact ⟨⟨_, _, _, _, rfl⟩, ⟨[], [], none⟩, [], List.nil_sublist _,
          (leftByTools_begun w).trans hleft⟩
      · cases h
    | ok configuration =>
      obtain ⟨config, warnings⟩ := configuration
      rw [hconfigured] at h
      dsimp only at h
      rw [runConfigured_eq] at h
      obtain ⟨compiled, v, hcompile, h⟩ := exists_of_runOn_bind h
      rcases compileAll_cases hcompile with ⟨error, inputs, rfl⟩ | ⟨r0, rfl, hok⟩
      · cases h
        obtain ⟨started, ⟨c, hsub⟩, hleft⟩ :=
          startsOnly_compileAll tools request (projectOf request w) config warnings (begun w)
        rw [hcompile] at hleft
        exact ⟨⟨error, some config, warnings, inputs, rfl⟩, c, started, hsub,
          (leftByTools_begun w).trans hleft⟩
      · -- with compiled sources the result would not be a failed one
        have hsuccess : r.ok = r0.ok := ok_of_finish h
        rw [hfailed, hok] at hsuccess
        cases hsuccess
  obtain ⟨hresult, c, started, hsub, hleft⟩ := hends
  exact ⟨hresult, c, started, hsub, hleft, fun hkept => hleft.kept hkept⟩

/-- A project whose source the compiler rejects. -/
def rejectedProject : FileTree :=
  { bareProject with top := ("src", .directory [("a.ts", .file [40])]) :: bareProject.top }

/-- Tools whose compiler fails half-way, and leaves a file behind. -/
def rejectingTools : Toolchain :=
  { idleTools with
    compile := fun _ => do
      Edit.change fun t => .ok (t.put ["a.js.map"] (.file []))
      return 1 }

/-- The build of the project fails. -/
theorem run_rejectedProject :
    ∃ r u, (run rejectingTools askingRequest).runOn ⟨rejectedProject, []⟩ = (.ok r, u)
      ∧ r.ok = false := by
  have hmanifest : rejectedProject.Holds "/package.json" bareContent := by cbv
  obtain ⟨warnings, hconfigured⟩ := configured_bareProject (w := ⟨rejectedProject, []⟩) (by cbv)
  rw [Manifest.loadModule, load_bareManifest hmanifest] at hconfigured
  have hready : configured askingRequest ⟨rejectedProject, []⟩ = .ok (bareConfig, warnings) :=
    hconfigured
  have hlogged : Gives (warnings.forM (Action.log .warning logger)) rejectedProject ⟨⟩
      rejectedProject := gives_forM (fun _ => gives_log _ _ _ _) warnings
  obtain ⟨events, hlogged⟩ := hlogged (begun ⟨rejectedProject, []⟩).events
  obtain ⟨events', hfiles⟩ := Listing.runOn_files bareConfig.rootDir [Specifier.sourceExtension]
    bareConfig.ignoredDirs [".d.ts"] ⟨rejectedProject, events⟩
  have hsources : (rejectedProject.walk bareConfig.rootDir bareConfig.ignoredDirs).map
      (Listing.paths [Specifier.sourceExtension] [".d.ts"]) = .ok ["/src/a.ts"] := by cbv
  rw [hsources] at hfiles
  rw [runOn_run, hready]
  dsimp only
  rw [runConfigured_eq]
  unfold compileAll checkTypes compileChecked sources
  rw [runOn_bind, runOn_bind, show begun ⟨rejectedProject, []⟩
    = ⟨rejectedProject, (begun ⟨rejectedProject, []⟩).events⟩ from rfl, hlogged]
  dsimp only
  rw [show (bareConfig.strict && !askingRequest.skipTypeCheck) = false from rfl,
    if_neg Bool.false_ne_true, runOn_bind, runOn_pure]
  dsimp only
  rw [runOn_bind, hfiles]
  exact ⟨_, _, rfl, rfl⟩

/-- That build leaves the project to its tools, and the manifest as it was. -/
theorem leftByTools_rejectedProject :
    ∃ r u started, (run rejectingTools askingRequest).runOn ⟨rejectedProject, []⟩ = (.ok r, u)
      ∧ r.ok = false ∧ LeftByTools started ⟨rejectedProject, []⟩ u
      ∧ u.tree.readBytes "/package.json" = .ok bareContent := by
  obtain ⟨r, u, hrun, hfailed⟩ := run_rejectedProject
  obtain ⟨-, c, started, hsub, hleft, hmanifest⟩ := leftByTools_of_failed hrun hfailed
  have hpath : Manifest.pathIn (projectOf askingRequest ⟨rejectedProject, []⟩) = "/package.json" := by
    rw [projectOf_askingRequest]
    decide
  rw [hpath] at hmanifest
  refine ⟨r, u, started, hrun, hfailed, hleft, (hmanifest ?_).trans (by cbv)⟩
  have hcompiled : (((rejectingTools.compile c).runOn rejectedProject).2).readBytes "/package.json"
      = rejectedProject.readBytes "/package.json" := by
    rw [show ((rejectingTools.compile c).runOn rejectedProject).2
      = rejectedProject.put ["a.js.map"] (.file []) from rfl]
    cbv
  rcases List.sublist_cons_iff.1 hsub with hrest | ⟨rest, rfl, hrest⟩
  · rcases List.sublist_singleton.1 hrest with rfl | rfl
    · trivial
    · exact ⟨hcompiled, trivial⟩
  · rcases List.sublist_singleton.1 hrest with rfl | rfl
    · exact ⟨rfl, trivial⟩
    · exact ⟨rfl, hcompiled, trivial⟩

end Build

end ModuleBuild
