/-
  ModuleBuild.Proofs.Build.AskedOnce
  ──────────────────────────────────
  **THE AUTOMATION QUESTION IS ANSWERED ONCE.**

  A recorded choice leaves a manifest that holds an answer, and no stage of a
  later build takes the answer away: what makes modules runnable replaces
  files with other names, and what records the start script writes the
  manifest with the answer in it.  Only the outside tools and the assets could
  do so; builds in which they leave the manifest alone go on keeping the
  answer, and so put no question.

  Main results:
    * `run_of_answer` — with an answer, a build puts no question and keeps the answer;
    * `keepsAnswer_of_builds` — a row of builds keeps an answer;
    * `answered_once` — so the question is answered once.
-/
import ModuleBuild.Proofs.Build.Question
import ModuleBuild.Proofs.Path.NameForm

namespace ModuleBuild

open ModuleBuild.Action

/-! ## §1. Modules are no manifest. -/

/-- Replacing modules keeps an answer: none has the name of the manifest. -/
theorem Manifest.keptByModules_keepsAnswer {path : Text} {init : List Text} (hp : Path.Straight path)
    (hnames : Path.names path = init ++ [fileName]) : Modules.KeptByModules (KeepsAnswer path) := by
  intro t q old text t' hq hend hread hreplace
  refine keepsAnswer_of_holds fun bytes hheld => ?_
  have hsuffix : Specifier.moduleExtension <:+ Path.baseName q := by
    simpa [Listing.hasEnding, Text.endsWith] using hend
  have hne : Path.baseName q ≠ [] := by
    intro hnil
    rw [hnil] at hsuffix
    exact absurd (List.suffix_nil.1 hsuffix) (by decide)
  obtain ⟨init', hnames'⟩ := Path.exists_names_baseName hne
  refine hheld.replaceText hp hnames hread hreplace hnames' fun hform => ?_
  have hself : Utf8.nameForm fileName = fileName := by decide
  have hascii : ∀ c ∈ fileName, c.code < 0x80 := by decide
  rw [hself] at hform
  -- a name that the system takes for an ASCII name is that name
  have hbase : Utf8.nameForm (Path.baseName q) = Path.baseName q :=
    Utf8.nameForm_eq_self (by rw [hform]; exact hascii)
  rw [← hbase, hform] at hsuffix
  exact absurd hsuffix (by decide)

namespace Build

/-! ## §2. Rows of builds. -/

/-- What lies at a path is the same. -/
def Untouched (path : Text) (t t' : FileTree) : Prop := t'.findLink? path = t.findLink? path

instance (path : Text) : IsPreorder FileTree (Untouched path) where
  refl _ := rfl
  trans _ _ _ h h' := h'.trans h

/-- What builds of one project leave of a world, one after the other, if nothing but the builds
themselves writes its manifest: neither their tools and assets, nor anyone between two builds. -/
inductive Builds (projectDir : Text) : World → World → Prop
  | none (w : World) : Builds projectDir w w
  | build {w u : World} (tools : Toolchain) (request : BuildRequest) :
      Builds projectDir w u → projectOf request u = projectDir →
      Spares (Untouched (Manifest.pathIn projectDir)) tools request u →
      Builds projectDir w ((run tools request).runOn u).2
  | elsewhere {w u v : World} :
      Builds projectDir w u → Untouched (Manifest.pathIn projectDir) u.tree v.tree →
      Builds projectDir w v

theorem keepsAnswer_of_untouched {path : Text} {t t' : FileTree} (h : Untouched path t t') :
    Manifest.KeepsAnswer path t t' := by
  refine Manifest.keepsAnswer_of_holds fun bytes hheld => ?_
  unfold FileTree.Holds at hheld ⊢
  rw [← hheld]
  exact h

/-- **A build in which only the build writes the manifest keeps an answer on the way to its
question.** -/
theorem run_comes_keepsAnswer {tools : Toolchain} {request : BuildRequest} {w : World}
    (hspares : Spares (Untouched (Manifest.pathIn (projectOf request w))) tools request w) :
    Comes (Manifest.KeepsAnswer (Manifest.pathIn (projectOf request w)))
      (Manifest.pathIn (projectOf request w)) request.prompt w ((run tools request).runOn w) := by
  obtain ⟨hp, hnames⟩ := straight_pathIn request w
  refine run_comes (Manifest.keptByModules_keepsAnswer hp hnames) (hspares.mono fun t t' h => ?_)
    fun config r u => ?_
  · exact keepsAnswer_of_untouched h
  · unfold recordStart
    -- the search for the entry leaves the tree as it is; only a found entry is written down
    have hentry := (calm_entryPath (K := Eq) config u).2
    rw [runOn_bind]
    rcases hrun : (entryPath config).runOn u with ⟨failure | entry, v⟩
    · rw [hrun] at hentry
      dsimp only at hentry ⊢
      rw [hentry]
      exact refl_of _ _
    · rw [hrun] at hentry
      dsimp only at hentry ⊢
      rw [hentry]
      cases entry with
      | none => exact (calm_warn r _ v).2
      | some path =>
        have hpersist := Manifest.keepsAnswer_persistEntry
          (Manifest.pathIn (projectOf request w)) (outDirReference config) path v
        dsimp only
        rw [runOn_bind]
        rcases hrun' : (Manifest.persistEntry _ (outDirReference config) path).runOn v
          with ⟨failure | script, v'⟩
        · rw [hrun'] at hpersist
          exact hpersist
        · rw [hrun'] at hpersist
          exact hpersist

/-- **With an answer, a build puts no question**, records no choice, and keeps the answer. -/
theorem run_of_answer {tools : Toolchain} {request : BuildRequest} {w : World} {m : Manifest}
    (hspares : Spares (Untouched (Manifest.pathIn (projectOf request w))) tools request w)
    (hm : Manifest.AnswerAt (Manifest.pathIn (projectOf request w)) w.tree m) :
    Quiet w.events ((run tools request).runOn w).2.events
      ∧ (∀ r, ((run tools request).runOn w).1 = .ok r → r.automationChoice = none)
      ∧ ∃ m', Manifest.AnswerAt (Manifest.pathIn (projectOf request w))
          ((run tools request).runOn w).2.tree m' ∧ m.SameAutomation m' := by
  rcases run_comes_keepsAnswer hspares with ⟨hquiet, hkeeps, hnone⟩ | ⟨r, u, hu, hkeeps, hrun⟩
  · exact ⟨hquiet, hnone, hkeeps m hm⟩
  · obtain ⟨m', hm', hsame⟩ := hkeeps m hm
    rw [hrun]
    rcases conclude_cases (Manifest.pathIn (projectOf request w)) request.prompt r u with
      ⟨hquiet, htree, hnone⟩ | ⟨m'', p, hload, hasked, -⟩
    · exact ⟨hu.trans hquiet, hnone, m', htree ▸ hm', hsame⟩
    · -- the manifest that is loaded is the one with the answer
      rw [hm'.loaded] at hload
      cases hload
      rw [hm'.answered.askedUser] at hasked
      cases hasked

/-- **A row of builds keeps an answer.** -/
theorem keepsAnswer_of_builds {projectDir : Text} {w w' : World} (h : Builds projectDir w w') :
    Manifest.KeepsAnswer (Manifest.pathIn projectDir) w.tree w'.tree := by
  induction h with
  | none => exact refl_of _ _
  | build tools request _ hsame hspares ih =>
    subst hsame
    refine trans_of _ ih fun m hm => ?_
    obtain ⟨-, -, hkept⟩ := run_of_answer hspares hm
    exact hkept
  | elsewhere _ huntouched ih => exact trans_of _ ih (keepsAnswer_of_untouched huntouched)

/-! ## §3. The question is answered once. -/

/-- **The automation question is answered at most once for a project.**  A build that puts the question
puts it once, in a world whose manifest holds no answer at that point.  When a build has recorded a
choice, the manifest holds an answer; and after any row of builds of the project in which only the
builds write the manifest it still does, with the same scripts that run the build, and one more such
build puts no question and records no choice. -/
theorem answered_once :
    (∀ tools request w,
      Quiet w.events ((run tools request).runOn w).2.events
      ∨ ∃ r u m p, Quiet w.events u.events
          ∧ (run tools request).runOn w
            = (conclude (Manifest.pathIn (projectOf request w)) request.prompt r).runOn u
          ∧ Manifest.load u.tree (Manifest.pathIn (projectOf request w)) = .ok m
          ∧ m.askedUser = false ∧ request.prompt = some p
          ∧ Quiet (u.events ++ [.asked p.shown]) ((run tools request).runOn w).2.events)
    ∧ ∀ tools request w r w1, (run tools request).runOn w = (.ok r, w1) →
      r.automationChoice ≠ none →
      ∃ m, Manifest.load w1.tree (Manifest.pathIn (projectOf request w)) = .ok m
        ∧ m.askedUser = true
        ∧ ∀ w2, Builds (projectOf request w) w1 w2 →
          (∃ m', Manifest.load w2.tree (Manifest.pathIn (projectOf request w)) = .ok m'
            ∧ m'.askedUser = true ∧ m.SameAutomation m')
          ∧ ∀ tools' request', projectOf request' w2 = projectOf request w →
            Spares (Untouched (Manifest.pathIn (projectOf request w))) tools' request' w2 →
            Quiet w2.events ((run tools' request').runOn w2).2.events
              ∧ ∀ r', ((run tools' request').runOn w2).1 = .ok r' → r'.automationChoice = none := by
  have hcomes : ∀ tools request w, Comes AnyTree (Manifest.pathIn (projectOf request w)) request.prompt w
      ((run tools request).runOn w) := fun tools request w =>
    run_comes (fun _ _ _ _ _ _ _ _ _ => trivial)
      (fun _ _ _ _ _ _ => ⟨trivial, fun _ _ _ _ _ => trivial⟩) fun _ _ _ => trivial
  refine ⟨fun tools request w => ?_, fun tools request w r w1 hrun hchoice => ?_⟩
  · rcases hcomes tools request w with ⟨hquiet, -⟩ | ⟨r, u, hu, -, hrun⟩
    · exact .inl hquiet
    · rw [hrun]
      rcases conclude_cases (Manifest.pathIn (projectOf request w)) request.prompt r u with
        ⟨hquiet, -⟩ | ⟨m, p, hload, hasked, hprompt, hquiet, -⟩
      · exact .inl (hu.trans hquiet)
      · exact .inr ⟨r, u, m, p, hu, rfl, hload, hasked, hprompt, hquiet⟩
  · -- the choice was recorded in the manifest that the question was put for
    have hanswer : ∃ m, Manifest.AnswerAt (Manifest.pathIn (projectOf request w)) w1.tree m := by
      rcases hcomes tools request w with ⟨-, -, hnone⟩ | ⟨r0, u, -, -, hconclude⟩
      · exact absurd (hnone r (by rw [hrun])) hchoice
      · rw [hrun] at hconclude
        rcases conclude_cases (Manifest.pathIn (projectOf request w)) request.prompt r0 u with
          ⟨-, -, hnone⟩ | ⟨m, p, hload, -, -, -, hsaved⟩
        · exact absurd (hnone r (by rw [← hconclude])) hchoice
        · obtain ⟨c, hreplace⟩ := hsaved r (by rw [← hconclude]) hchoice
          rw [← hconclude] at hreplace
          exact ⟨_, Manifest.answerAt_withChoice hload hreplace⟩
    obtain ⟨m, hm⟩ := hanswer
    refine ⟨m, hm.loaded, hm.answered.askedUser, fun w2 hbuilds => ?_⟩
    obtain ⟨m', hm', hsame⟩ := keepsAnswer_of_builds hbuilds m hm
    refine ⟨⟨m', hm'.loaded, hm'.answered.askedUser, hsame⟩, ?_⟩
    intro tools' request' hsameProject hspares
    rw [← hsameProject] at hspares hm'
    obtain ⟨hquiet, hnone, -⟩ := run_of_answer hspares hm'
    exact ⟨hquiet, hnone⟩

/-- Tools that do nothing. -/
def idleTools : Toolchain := ⟨none, return 0, fun _ => return 0⟩

/-- A manifest that declares modules, and nothing else. -/
def bareContent : Bytes := "\x7b\n  \"type\": \"module\"\n\x7d\n".toUTF8.toList

/-- A project without sources. -/
def bareProject : FileTree :=
  ⟨[("tsconfig.json", .file ("\x7b\x7d\n".toUTF8.toList)), ("package.json", .file bareContent)], [],
    .closed⟩

/-- A build of it, with someone who wants all scripts. -/
def askingRequest : BuildRequest := ⟨"/", ⟨none, some "src", none⟩, false, some ⟨[], some "y"⟩, 0⟩

/-- The configuration of the project. -/
def bareConfig : Config :=
  { projectDir := "/", rootDir := "/src", outDir := "/dist", outDirName := "dist",
    ignoredDirs := Config.effectiveIgnored [] "dist" (some "/dist"), indexFileName := "index.js",
    markerNames := [], assetPaths := [], indexPath := none, strict := false }

/-- Tools that do nothing and no assets spare everything. -/
theorem spares_of_idle {K : FileTree → FileTree → Prop} [IsPreorder FileTree K]
    {request : BuildRequest} {w : World}
    (hassets : ∀ config warnings, configured request w = .ok (config, warnings) →
      config.assetPaths = []) : Spares K idleTools request w := by
  intro config warnings hconfigured result u hcompile
  have hcalm : Calm K (compileAll idleTools request (projectOf request w) config warnings) :=
    calm_compileAll (fun t => refl_of K t) (fun _ t => refl_of K t) _ _ _ _
  have hkept := (hcalm (begun w)).2
  rw [hcompile] at hkept
  refine ⟨hkept, fun r r' v _ _ => ?_⟩
  unfold placeAssets
  rw [if_pos (hassets config warnings hconfigured)]
  exact (calm_warn r' _ v).2

/-- Without sources, output and assets a build comes to its question with the tree as it is. -/
theorem run_of_bare {tools : Toolchain} {request : BuildRequest} {w : World} {config : Config}
    {warnings : List Text} (hconfigured : configured request w = .ok (config, warnings))
    (hstrict : config.strict = false)
    (hsources : (w.tree.walk config.rootDir config.ignoredDirs).map
      (Listing.paths [Specifier.sourceExtension] [".d.ts"]) = .ok [])
    (hout : w.tree.namesDirectory config.outDir = false) (hassets : config.assetPaths = [])
    (hindex : config.indexPath = none) :
    ∃ r events, (run tools request).runOn w
      = (conclude (Manifest.pathIn (projectOf request w)) request.prompt r).runOn ⟨w.tree, events⟩ := by
  have hwarnings : ∀ (ws : List Text) (u : World), ∃ events,
      (ws.forM (Action.log .warning logger)).runOn u = (.ok (), ⟨u.tree, events⟩) := by
    intro ws
    induction ws with
    | nil => exact fun u => ⟨_, rfl⟩
    | cons words ws ih => exact fun u => ih _
  -- each step is logged and leaves the tree as it is, so the next one meets the same tree
  obtain ⟨events, hlogged⟩ := hwarnings warnings (begun w)
  obtain ⟨events', hfiles⟩ := Listing.runOn_files config.rootDir [Specifier.sourceExtension]
    config.ignoredDirs [".d.ts"] ⟨w.tree, events⟩
  rw [show (⟨w.tree, events⟩ : World).tree.walk _ _ = w.tree.walk _ _ from rfl, hsources] at hfiles
  obtain ⟨r0, e0, hcompile⟩ : ∃ r e,
      (compileAll tools request (projectOf request w) config warnings).runOn (begun w)
        = (.ok (.ok r), ⟨w.tree, e⟩) := by
    unfold compileAll checkTypes compileChecked sources
    rw [runOn_bind, hlogged, hstrict]
    dsimp only
    rw [Bool.false_and, if_neg Bool.false_ne_true, runOn_bind, runOn_pure]
    dsimp only
    rw [runOn_bind, show (begun w).tree = w.tree from rfl, hfiles]
    exact ⟨_, _, rfl⟩
  obtain ⟨r1, e1, hnormalize, -⟩ := normalizeModules_of_vacant hout r0 e0
  obtain ⟨r2, e2, hplace⟩ : ∃ r e,
      (placeAssets config r1).runOn ⟨w.tree, e1⟩ = (.ok r, ⟨w.tree, e⟩) := by
    unfold placeAssets
    rw [if_pos hassets]
    exact ⟨_, _, rfl⟩
  obtain ⟨r3, e3, hstart⟩ : ∃ r e,
      (recordStart config (Manifest.pathIn (projectOf request w)) r2).runOn ⟨w.tree, e2⟩
        = (.ok r, ⟨w.tree, e⟩) := by
    have hview : (Action.view (·.namesDirectory config.outDir)).runOn ⟨w.tree, e2⟩
        = (.ok false, ⟨w.tree, e2⟩) :=
      congrArg (fun b => ((.ok b, ⟨w.tree, e2⟩) : Except Failure Bool × World)) hout
    unfold recordStart entryPath Entry.find
    rw [hindex]
    dsimp only
    rw [runOn_bind, runOn_bind, hview]
    exact ⟨_, _, rfl⟩
  refine ⟨r3, e3, ?_⟩
  rw [runOn_run, hconfigured]
  dsimp only
  rw [runConfigured_eq, runOn_bind, hcompile]
  dsimp only
  rw [finish_eq, runOn_bind, hnormalize]
  dsimp only
  rw [runOn_bind, hplace]
  dsimp only
  rw [runOn_bind, hstart]

/-- The manifest of the project. -/
def bareManifest : Manifest := ⟨"/package.json", [("type", .string "module")]⟩

theorem straight_manifest : Path.Straight "/package.json" := by
  have hself : bareProject.absolute "/package.json" = "/package.json" := by decide
  exact hself ▸ FileTree.straight_absolute _ _

theorem load_bareManifest {t : FileTree}
    (hheld : t.Holds "/package.json" bareContent) :
    Manifest.load t "/package.json" = .ok bareManifest := by
  have hwritable : Json.Writable (.object bareManifest.members) := by
    refine .object (by simp [bareManifest]) fun m hm => ?_
    rw [List.mem_singleton.1 hm]
    exact .string _
  have hencode : Utf8.encode (Json.render (.object bareManifest.members) ++ [CodePoint.lineFeed])
      = .ok bareContent := by cbv
  rw [Manifest.load, if_pos hheld.namesFile,
    FileTree.readObject_saved hwritable hencode hheld.readBytes]
  rfl

theorem load_bareProject : Manifest.load bareProject "/package.json" = .ok bareManifest :=
  load_bareManifest (by cbv)

theorem straight_tsconfig :
    Path.Straight "/tsconfig.json"
      ∧ Path.names "/tsconfig.json" = ([] : List Text) ++ [Config.fileName] := by
  have hself : bareProject.absolute "/tsconfig.json" = "/tsconfig.json" := by decide
  refine ⟨?_, by decide⟩
  rw [← hself]
  exact FileTree.straight_absolute _ _

theorem projectOf_askingRequest (w : World) : projectOf askingRequest w = "/" := by
  have habs : Path.isAbsolute askingRequest.projectDir = true := by decide
  unfold projectOf FileTree.absolute
  rw [Path.resolveAgainst_of_isAbsolute habs]
  decide

/-- What the configuration of the project is, whatever its manifest is. -/
theorem configured_bareProject {w : World}
    (hheld : w.tree.Holds "/tsconfig.json" ("\x7b\x7d\n".toUTF8.toList)) :
    ∃ warnings, configured askingRequest w
      = Manifest.loadModule w.tree "/package.json" >>= fun _ => .ok (bareConfig, warnings) := by
  have hproject := projectOf_askingRequest w
  have hencode : Utf8.encode (Json.render (.object []) ++ [CodePoint.lineFeed])
      = .ok ("\x7b\x7d\n".toUTF8.toList) := by cbv
  have hdocument : Config.readDocument w.tree "/" = .ok [] := by
    have hpath : Path.join "/" Config.fileName = "/tsconfig.json" := by decide
    rw [Config.readDocument, hpath, if_pos hheld.namesFile,
      FileTree.readObject_saved Json.writable_empty hencode hheld.readBytes]
    rfl
  have hpath : Manifest.pathIn "/" = "/package.json" := by decide
  unfold configured
  rw [hproject, hdocument, hpath]
  exact ⟨_, rfl⟩

/-- The first build of the project ends with the choice recorded. -/
theorem run_bareProject :
    ∃ r t events, bareProject.replaceText "/package.json" (bareManifest.withChoice .all).content = .ok t
      ∧ (run idleTools askingRequest).runOn ⟨bareProject, []⟩ = (.ok r, ⟨t, events⟩)
      ∧ r.automationChoice = some ("y" : Text) := by
  have hproject := projectOf_askingRequest ⟨bareProject, []⟩
  have hpath : Manifest.pathIn "/" = "/package.json" := by decide
  obtain ⟨warnings, hconfigured⟩ := configured_bareProject (w := ⟨bareProject, []⟩) (by cbv)
  rw [Manifest.loadModule, load_bareProject] at hconfigured
  have hsources : (bareProject.walk bareConfig.rootDir bareConfig.ignoredDirs).map
      (Listing.paths [Specifier.sourceExtension] [".d.ts"]) = .ok [] := by cbv
  have hout : bareProject.namesDirectory bareConfig.outDir = false := by cbv
  have hready : configured askingRequest ⟨bareProject, []⟩ = .ok (bareConfig, warnings) := hconfigured
  obtain ⟨r0, events, hrun⟩ : ∃ r events, (run idleTools askingRequest).runOn ⟨bareProject, []⟩
      = (conclude (Manifest.pathIn (projectOf askingRequest ⟨bareProject, []⟩)) askingRequest.prompt
          r).runOn ⟨bareProject, events⟩ :=
    run_of_bare hready rfl hsources hout rfl rfl
  -- the manifest can be saved: a computation, on a tree that is given
  obtain ⟨t, hsave⟩ : ∃ t,
      bareProject.replaceText "/package.json" (bareManifest.withChoice .all).content = .ok t := by
    have hsome : (bareProject.replaceText "/package.json"
        (bareManifest.withChoice .all).content).toOption.isSome = true := by cbv
    cases hreplace : bareProject.replaceText "/package.json" (bareManifest.withChoice .all).content with
    | ok t => exact ⟨t, rfl⟩
    | error failure =>
      rw [hreplace] at hsome
      cases hsome
  obtain ⟨record, saved, hpersist⟩ := Manifest.runOn_persistChoice
    (w := ⟨bareProject, events ++ [.asked []]⟩) load_bareProject (some "y")
  have hletter : Choice.ofAnswer (some "y") = .all := Choice.ofAnswer_letter .all
  rw [hletter, hsave] at hpersist
  -- the question is put to a user who answers it, and the answer is saved
  have hask : ∃ events',
      (askAutomation "/package.json" askingRequest.prompt).runOn ⟨bareProject, events⟩
        = (.ok (some .all), ⟨t, events'⟩) := by
    rw [askingRequest, runOn_askAutomation load_bareProject rfl, runOn_bind, hpersist]
    exact ⟨_, rfl⟩
  obtain ⟨events', hask⟩ := hask
  obtain ⟨r, events'', hconclude, hchoice, -⟩ := conclude_of_ask hask r0
  rw [hproject, hpath, hconclude] at hrun
  exact ⟨r, t, events'', hsave, hrun, hchoice⟩

/-- That build is followed by one that finds the answer and does not ask again. -/
theorem answered_once_bareProject :
    ∃ r w1 m, (run idleTools askingRequest).runOn ⟨bareProject, []⟩ = (.ok r, w1)
      ∧ r.automationChoice = some ("y" : Text)
      ∧ Manifest.load w1.tree "/package.json" = .ok m ∧ m.askedUser = true
      ∧ Builds "/" w1 ((run idleTools askingRequest).runOn w1).2
      ∧ (∃ m', Manifest.load ((run idleTools askingRequest).runOn w1).2.tree "/package.json" = .ok m'
          ∧ m'.askedUser = true ∧ m.SameAutomation m')
      ∧ Quiet w1.events ((run idleTools askingRequest).runOn w1).2.events := by
  obtain ⟨r, t, events, hsave, hrun, hchoice⟩ := run_bareProject
  have hproject := projectOf_askingRequest ⟨bareProject, []⟩
  have hpath : Manifest.pathIn "/" = "/package.json" := by decide
  -- the configuration is read again, and has no assets
  have hheld : t.Holds "/tsconfig.json" ("\x7b\x7d\n".toUTF8.toList) := by
    obtain ⟨old, hread⟩ := Manifest.exists_readBytes_of_load load_bareProject
    have hbefore : bareProject.Holds "/tsconfig.json" ("\x7b\x7d\n".toUTF8.toList) := by cbv
    have hnames : Path.names "/package.json" = ([] : List Text) ++ [Manifest.fileName] := by decide
    exact hbefore.replaceText straight_tsconfig.1 straight_tsconfig.2 hread hsave hnames
      (by decide)
  have hspares : Spares (Untouched (Manifest.pathIn "/")) idleTools askingRequest ⟨t, events⟩ := by
    refine spares_of_idle fun config warnings h => ?_
    obtain ⟨warnings', hconfigured⟩ := configured_bareProject (w := ⟨t, events⟩) hheld
    rw [hconfigured] at h
    cases hmodule : Manifest.loadModule t "/package.json" with
    | error failure =>
      rw [hmodule] at h
      cases h
    | ok m =>
      rw [hmodule] at h
      cases h
      rfl
  have hproject' := projectOf_askingRequest ⟨t, events⟩
  obtain ⟨m, hm, hasked, hlater⟩ := answered_once.2 idleTools askingRequest ⟨bareProject, []⟩ r _ hrun
    (by rw [hchoice]; exact Option.some_ne_none _)
  rw [hproject, hpath] at hm
  rw [hproject] at hlater
  have hnext := Builds.build idleTools askingRequest (.none ⟨t, events⟩) hproject' hspares
  have hkept := (hlater _ hnext).1
  rw [hpath] at hkept
  refine ⟨r, ⟨t, events⟩, m, hrun, hchoice, hm, hasked, hnext, hkept, ?_⟩
  exact ((hlater _ (.none _)).2 idleTools askingRequest hproject' hspares).1

end Build

end ModuleBuild
