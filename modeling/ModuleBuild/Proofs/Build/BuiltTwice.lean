/-
  ModuleBuild.Proofs.Build.BuiltTwice
  ───────────────────────────────────
  **A SECOND BUILD REPEATS THE FIRST.**

  Both builds are told by the same stages.  The first takes the tree through
  its stages to a start script; the second begins with what the first has
  left, is configured the same, finds the same sources and compiles them into
  the same modules, and is then beside the first at every stage until both
  trees are one.

  All this rests on the sources being found again, and no others.  The walk of
  the sources is kept out of an output that is written with the same root; one
  that is written with two slashes in front of it is searched, and an asset of
  the first build is a source of the second.

  Main results:
    * `finish_course` — the stages of a build, from its compiled sources on;
    * `finish_again` — the same stages beside them, in a second build;
    * `run_again` — a second build repeats the first;
    * `run_slashedProject` — and compiles more than it, if the roots differ.
-/
import ModuleBuild.Proofs.Build.AskedOnce
import ModuleBuild.Proofs.Build.StagesAgain

namespace ModuleBuild

open FileTree
open ModuleBuild.Action

namespace Build

/-! ## §1. From the compiled sources on. -/

/-- The sources of a project, as the walk of their directory finds them. -/
def Found (config : Config) (t : FileTree) (inputs : List Text) : Prop :=
  (t.walk config.rootDir config.ignoredDirs).map
    (Listing.paths [Specifier.sourceExtension] [".d.ts"]) = .ok inputs

/-- The result of a build when its sources are compiled. -/
def compiledResult (request : BuildRequest) (config : Config) (inputs warnings : List Text) :
    BuildResult :=
  { BuildResult.completed config inputs request.durationMs with warnings := warnings }

variable {request : BuildRequest} {config : Config} {inputs warnings : List Text}

/-- Where the tools succeed, a build is its last stages over the compiled sources. -/
theorem run_eq_finish (tools : Toolchain) {w : World} {u : FileTree}
    (hconfigured : configured request w = .ok (config, warnings)) (hsources : Found config w.tree inputs)
    (htypes : (config.strict && !request.skipTypeCheck) = true →
      tools.typeCheck.runOn w.tree = (.ok 0, w.tree))
    (hcompile : if inputs = [] then u = w.tree
      else (tools.compile ⟨inputs, config.outDir, some config.rootDir⟩).runOn w.tree = (.ok 0, u)) :
    ∃ events, (run tools request).runOn w
      = (finish config (Manifest.pathIn (projectOf request w)) request.prompt
          (compiledResult request config inputs warnings)).runOn ⟨u, events⟩ := by
  obtain ⟨events, hcompiled⟩ :=
    gives_compileAll hsources htypes hcompile (projectOf request w) warnings (begun w).events
  refine ⟨events, ?_⟩
  rw [runOn_run, hconfigured]
  dsimp only
  rw [runConfigured_eq, runOn_bind, show begun w = ⟨w.tree, (begun w).events⟩ from rfl, hcompiled]
  rfl

/-- What is asked of the directories and the assets of a project, seen from a tree in which there is no
output yet. -/
structure Repeatable (config : Config) (m : Location) (made : Makings) (t : FileTree) : Prop where
  plain : Plain t
  rootDir : Path.Spelled config.rootDir
  outDir : Path.Spelled config.outDir
  vacant : t.entryAt? (Path.names config.outDir) = none
  apart : ¬ Path.names config.outDir <+: Path.names config.rootDir
  assets : ∀ asset ∈ config.assetPaths, Path.isAbsolute asset = false →
    Assets.Admissible config.rootDir config.outDir m asset
      ∧ Yields made config.rootDir config.outDir t asset

section Stages

variable {path : Text} {made : Makings} {t0 : FileTree} {m : Manifest}
  (hplaced : config.Placed) (hproject : Repeatable config (placeOf path) made t0)
  (hp : Path.Straight path) {init : List Text} (hnames : Path.names path = init ++ [Manifest.fileName])
  (hload : Manifest.load t0 path = .ok m) (hmodule : m.isModule = true)
  (hbelow : BelowOutput (Path.names config.outDir) made) (hroom : Accepts made t0)

include hproject in
theorem Repeatable.output_ne_nil : Path.names config.outDir ≠ [] := fun hnil =>
  hproject.apart (hnil ▸ List.nil_prefix)

include hplaced hproject hp hnames hload hmodule hbelow hroom

/-- **The stages of a build, from its compiled sources on.** -/
theorem finish_course {r0 r : BuildResult} {v w' : World} (hcompiled : Plain v.tree)
    (hlaid : Laid made t0 v.tree) (hrun : (finish config path none r0).runOn v = (.ok r, w')) :
    ∃ r1 r2 r3 w2 w3 w4,
      Agrees r0 r1
        ∧ (placeAssets config r1).runOn w2 = (.ok r2, w3)
        ∧ (recordStart config path r2).runOn w3 = (.ok r3, w4)
        ∧ Agrees r3 r ∧ w4.tree = w'.tree
        ∧ Course config (placeOf path) made t0 v.tree w2.tree w3.tree w'.tree
        ∧ (∃ m', Manifest.load w3.tree path = .ok m' ∧ m'.isModule = true)
        ∧ ∃ m', Manifest.load w'.tree path = .ok m' ∧ m'.isModule = true := by
  have hassets : ∀ asset ∈ config.assetPaths, Path.isAbsolute asset = false →
      Assets.Admissible config.rootDir config.outDir (placeOf path) asset :=
    fun asset hmem habs => (hproject.assets asset hmem habs).1
  rw [finish_eq] at hrun
  obtain ⟨r1, w2, hnormalize, hrun⟩ := exists_of_runOn_bind hrun
  obtain ⟨r2, w3, hplace, hrun⟩ := exists_of_runOn_bind hrun
  obtain ⟨r3, w4, hstart, hconclude⟩ := exists_of_runOn_bind hrun
  obtain ⟨r1', w2', hnormalize', hagrees, htreated⟩ := normalizeModules_treated config r0 hcompiled.proper
    hcompiled.linkFree hcompiled.genuine hplaced.outDir hproject.outDir
  rw [hnormalize] at hnormalize'
  cases hnormalize'
  have hrunnable := hcompiled.of_alike htreated.alike
  obtain ⟨hstocked, hmoved⟩ := placeAssets_stocked hplaced.rootDir hproject.rootDir hplaced.outDir
    hproject.outDir hproject.output_ne_nil hrunnable.proper hrunnable.linkFree hassets hplace
  have hprepared : Prepared config (placeOf path) made t0 v.tree w2.tree w3.tree :=
    { plain := hproject.plain
      vacant := hproject.vacant
      manifest := Manifest.hasFile_of_load hproject.plain.linkFree hp hload
      named := ⟨_, by rw [placeOf, hnames, List.map_append]; rfl⟩
      below := hbelow
      room := hroom
      compiled := hcompiled
      laid := hlaid
      treated := htreated
      stocked := hstocked
      moved := hmoved }
  -- nothing on the way to the manifest has changed so far
  have hload3 : Manifest.load w3.tree path = .ok m := by
    rw [← hload]
    refine (Manifest.load_congr hproject.plain.linkFree hp fun k hk => ?_).symm
    exact (hprepared.same_way_placed (Manifest.hasFile_of_load hproject.plain.linkFree hp hload) hk)
  obtain ⟨hdir, hfile, hothers, hsaved⟩ :=
    recordStart_recorded hstocked.free hp hload3 hmodule hstart
  obtain ⟨m', hload4, hmodule'⟩ := hsaved
  obtain ⟨r4, hgives, hagrees4⟩ := gives_conclude hload4 r3
  obtain ⟨events, hend⟩ := hgives w4.events
  rw [hconclude] at hend
  cases hend
  exact ⟨r1, r2, r3, w2, w3, w4, hagrees, hplace, hstart, hagrees4, rfl,
    { hprepared with workingDir := hdir, recorded := hfile, others := hothers },
    ⟨m, hload3, hmodule⟩, m', hload4, hmodule'⟩

/-- **The same stages in a second build**, over what the first has left and the compiler has made again. -/
theorem finish_again {r0 r : BuildResult} {v w' : World} {u1 : FileTree} (hcompiled : Plain v.tree)
    (hlaid : Laid made t0 v.tree) (hrun : (finish config path none r0).runOn v = (.ok r, w'))
    (hagain : Plain u1) (hlaidAgain : Laid made w'.tree u1) (events : List Event) :
    ∃ ru wu, (finish config path none r0).runOn ⟨u1, events⟩ = (.ok ru, wu) ∧ Agrees r ru
      ∧ wu.tree.workingDir = w'.tree.workingDir ∧ ∀ k, wu.tree.entryAt? k = w'.tree.entryAt? k := by
  have hassets : ∀ asset ∈ config.assetPaths, Path.isAbsolute asset = false →
      Assets.Admissible config.rootDir config.outDir (placeOf path) asset :=
    fun asset hmem habs => (hproject.assets asset hmem habs).1
  obtain ⟨r1, r2, r3, w2, w3, w4, hagrees, hplace, hstart, hagrees4, htree, hcourse,
    ⟨m3, hload3, hmodule3⟩, -⟩ :=
      finish_course hplaced hproject hp hnames hload hmodule hbelow hroom hcompiled hlaid hrun
  obtain ⟨ru1, wu2, hnormalize, hagreesu, htreated⟩ := normalizeModules_treated (w := ⟨u1, events⟩) config
    r0 hagain.proper hagain.linkFree hagain.genuine hplaced.outDir hproject.outDir
  have hrunnable := hcourse.compiled.of_alike hcourse.treated.alike
  -- with runnable modules the second build is beside the first, and stays there
  have hrestocked := hcourse.restocked hlaidAgain htreated hagain
  have hrecorded : w'.tree.entryAt? (placeOf path) ≠ none := by
    obtain ⟨content, hfile⟩ := hcourse.recorded
    exact ne_none_of_eq_some hfile
  obtain ⟨ru2, wu3, hplaceu, hagrees2, hrestocked3⟩ := placeAssets_again hplaced.rootDir hproject.rootDir
    hplaced.outDir hproject.outDir hproject.output_ne_nil hrunnable.proper hrunnable.linkFree hassets hplace
    hrecorded hcourse.manifest_outside hrestocked (hagrees.symm.trans hagreesu)
  have hsame : ∀ k, wu3.tree.entryAt? k = w4.tree.entryAt? k := by
    intro k
    rw [htree]
    by_cases hk : k = placeOf path
    · rw [hk, hrestocked3.manifest]
    · rcases hrestocked3.done k with hdone | ⟨hm, -⟩
      · rw [← hdone, hcourse.others k hk]
      · exact absurd hm hk
  have hdir : wu3.tree.workingDir = w4.tree.workingDir := by
    rw [hrestocked3.workingDir, htree, hcourse.workingDir]
  obtain ⟨ru3, u4, hstartu, hagrees3, hdir4, hsame4⟩ := recordStart_again hcourse.stocked.free hp
    hload3 hmodule3 hstart hdir hsame hagrees2
  rw [htree] at hdir4 hsame4
  -- the manifest is read once more, to see whether the question has been answered
  have hload4 : ∃ m4, Manifest.load u4 path = .ok m4 := by
    obtain ⟨-, -, -, m4, hload4, -⟩ := recordStart_recorded hcourse.stocked.free hp hload3 hmodule3
      hstart
    refine ⟨m4, ?_⟩
    rw [← hload4, htree]
    exact (Manifest.load_congr (hcourse.plain_recorded hproject.outDir).linkFree hp
      fun k _ => (hsame4 k).symm).symm
  obtain ⟨m4, hload4⟩ := hload4
  obtain ⟨ru, hconclude, hagreesEnd⟩ := gives_conclude hload4 ru3
  obtain ⟨events3, hstartu⟩ := hstartu wu3.events
  obtain ⟨events4, hconclude⟩ := hconclude events3
  refine ⟨ru, ⟨u4, events4⟩, ?_, (hagrees4.symm.trans hagrees3).trans hagreesEnd, hdir4, hsame4⟩
  rw [finish_eq, runOn_bind, hnormalize]
  dsimp only
  rw [runOn_bind, hplaceu]
  dsimp only
  rw [runOn_bind, show wu3 = ⟨wu3.tree, wu3.events⟩ from rfl, hstartu]
  exact hconclude

end Stages

/-! ## §2. The whole build. -/

/-- **A second build repeats the first.** -/
theorem run_again {tools : Toolchain} {made : Makings} {w w' : World} {r : BuildResult}
    (hconfigured : configured request w = .ok (config, warnings))
    (hproject : Repeatable config (placeOf (Manifest.pathIn (projectOf request w))) made w.tree)
    (hroot : Path.rootOf config.outDir = Path.rootOf config.rootDir) (hprompt : request.prompt = none)
    (hsources : Found config w.tree inputs)
    (htypes : (config.strict && !request.skipTypeCheck) = true → ∀ u, Plain u →
      (∀ f ∈ inputs, u.readBytes f = w.tree.readBytes f) → tools.typeCheck.runOn u = (.ok 0, u))
    (hcompiles : Compiles tools ⟨inputs, config.outDir, some config.rootDir⟩ w.tree made)
    (hrun : (run tools request).runOn w = (.ok r, w')) (events : List Event) :
    ∃ r' w'', (run tools request).runOn ⟨w'.tree, events⟩ = (.ok r', w'') ∧ Agrees r r'
      ∧ w''.tree.workingDir = w'.tree.workingDir
      ∧ ∀ k, w''.tree.entryAt? k = w'.tree.entryAt? k := by
  have hplaced : config.Placed := .of_configured hconfigured
  obtain ⟨hp, hnames⟩ := straight_pathIn request w
  obtain ⟨document, described, m, hread, -, hload, hmodule, -⟩ :=
    (configured_eq_ok_iff request w).1 hconfigured
  obtain ⟨t1, hcompile, hplain1, hlaid⟩ := hcompiles.again w.tree hproject.plain (fun _ _ => rfl)
    hcompiles.accepts
  obtain ⟨events1, hfirst⟩ := run_eq_finish tools hconfigured hsources
    (fun hstrict => htypes hstrict w.tree hproject.plain fun _ _ => rfl) hcompile
  rw [hfirst, hprompt] at hrun
  obtain ⟨_, _, _, _, _, _, -, -, -, -, -, hcourse, -, m', hload', hmodule'⟩ := finish_course
    (v := ⟨t1, events1⟩) hplaced hproject hp hnames hload hmodule hcompiles.below hcompiles.accepts hplain1
    hlaid hrun
  have hplain' := hcourse.plain_recorded hproject.outDir
  -- the second build has the same directory, configuration and sources
  have hdir : projectOf request ⟨w'.tree, events⟩ = projectOf request w := by
    unfold projectOf absolute
    rw [hcourse.workingDir_eq]
  have hdocument : Config.readDocument w'.tree (projectOf request w)
      = Config.readDocument w.tree (projectOf request w) := by
    obtain ⟨hd, hdnames⟩ := (straight_absolute w.tree request.projectDir).join (n := Config.fileName)
      (by decide)
    have hfile := Config.hasFile_of_readDocument hproject.plain.linkFree hd hread
    have hne : placeOf (Path.join (projectOf request w) Config.fileName)
        ≠ placeOf (Manifest.pathIn (projectOf request w)) := by
      unfold placeOf
      rw [hnames, projectOf, hdnames, List.map_append, List.map_append]
      exact fun h => absurd (List.append_cancel_left h) (by decide)
    exact (Config.readDocument_congr hproject.plain.linkFree hd
      fun k hk => hcourse.same_way hfile hne hk).symm
  have hconfigured' : configured request ⟨w'.tree, events⟩ = .ok (config, warnings) :=
    configured_again hconfigured hdir hdocument hload' hmodule'
  have hsources' : Found config w'.tree inputs :=
    (hcourse.walk_sources hplaced.rootDir hproject.rootDir hproject.outDir
      (hplaced.keepsOut hroot hproject.apart) hproject.apart _).trans hsources
  have hbytes : ∀ f ∈ inputs, w'.tree.readBytes f = w.tree.readBytes f := fun f hf =>
    hcourse.readBytes_source hplaced.rootDir hproject.rootDir hsources hf
  obtain ⟨u1, hcompile', hplainu, hlaidu⟩ := hcompiles.again w'.tree hplain' hbytes
    (hcourse.accepts hproject.assets)
  obtain ⟨events2, hsecond⟩ := run_eq_finish (w := ⟨w'.tree, events⟩) tools hconfigured'
    hsources' (fun hstrict => htypes hstrict w'.tree hplain' hbytes) hcompile'
  obtain ⟨ru, wu, hfinish, hagrees, hsame⟩ := finish_again (v := ⟨t1, events1⟩) hplaced hproject hp hnames
    hload hmodule hcompiles.below hcompiles.accepts hplain1 hlaid hrun hplainu hlaidu events2
  refine ⟨ru, wu, ?_, hagrees, hsame⟩
  rw [hsecond, hprompt, hdir]
  exact hfinish

/-! ## §3. A compiler of one module. -/

/-- The name of the module that it makes. -/
def madeName : Text := "index.js"

/-- The module in a directory, which is made if it is missing. -/
def withModule (l : Location) (t : FileTree) : FileTree :=
  (if t.entryAt? l = none then t.put l .emptyDirectory else t).put (l ++ [madeName]) (.file [65])

/-- A compiler that makes one module of all sources, and a type check that finds nothing. -/
def oneModuleTools (l : Location) : Toolchain where
  launcher := none
  typeCheck := return 0
  compile _ := do
    Edit.change fun t => .ok (withModule l t)
    return 0

/-- What it makes. -/
def oneModule (l : Location) : Makings := fun k =>
  if k = l then some .directory else if k = l ++ [madeName] then some (.file [65]) else none

theorem oneModule_cases {l k : Location} {e : Entry} (h : oneModule l k = some e) :
    k = l ∧ e = .directory ∨ k = l ++ [madeName] ∧ e = .file [65] := by
  unfold oneModule at h
  split at h
  · rename_i hk
    cases h
    exact .inl ⟨hk, rfl⟩
  · split at h
    · rename_i hk
      cases h
      exact .inr ⟨hk, rfl⟩
    · cases h

/-- The compiler makes it wherever nothing of another kind is in the way. -/
theorem laid_withModule {d : Location} {n : Text} {t : FileTree} (hd : t.entryAt? d = some .directory)
    (hroom : Accepts (oneModule (d ++ [n])) t) :
    Laid (oneModule (d ++ [n])) t (withModule (d ++ [n]) t) := by
  have hself : oneModule (d ++ [n]) (d ++ [n]) = some .directory := if_pos rfl
  have hmodule : oneModule (d ++ [n]) (d ++ [n] ++ [madeName]) = some (.file [65]) := by
    unfold oneModule
    rw [if_neg (by simp), if_pos rfl]
  -- first the directory
  obtain ⟨v, hv, hdir, hentry⟩ : ∃ v, (if t.entryAt? (d ++ [n]) = none then t.put (d ++ [n]) .emptyDirectory
      else t) = v ∧ v.workingDir = t.workingDir
        ∧ ∀ k, v.entryAt? k = if k = d ++ [n] then some .directory else t.entryAt? k := by
    refine ⟨_, rfl, ?_⟩
    split
    · rename_i hnone
      exact ⟨workingDir_put .., entryAt?_put_missing hd hnone⟩
    · rename_i hsome
      refine ⟨rfl, fun k => ?_⟩
      split
      · rename_i hk
        rw [hk]
        exact Entry.eq_directory_of_shape ((hroom _ _ hself).resolve_left hsome)
      · rfl
  refine ⟨?_, fun k => ?_⟩
  · unfold withModule
    rw [hv, workingDir_put, hdir]
  · unfold withModule oneModule
    rw [hv, entryAt?_put_leaf ((hentry _).trans (if_pos rfl)) rfl]
    by_cases hk : k = d ++ [n]
    · have hne : ¬ d ++ [n] ++ [madeName] <+: d ++ [n] := fun h => by
        simpa using h.length_le
      rw [hk, if_neg (by simp), if_neg hne, hentry, if_pos rfl, if_pos rfl]
      rfl
    · by_cases hk' : k = d ++ [n] ++ [madeName]
      · rw [if_pos hk', if_neg hk, if_pos hk']
        rfl
      · rw [if_neg hk', if_neg hk, if_neg hk', Option.none_or]
        split
        · rename_i hpre
          -- below the module there was nothing
          by_contra hsome
          have hbelow := isDirectory_of_below (fun h => hsome h.symm) hpre fun e => hk' e.symm
          rcases hroom _ _ hmodule with hnone | hshape
          · rw [hnone] at hbelow
            cases hbelow
          · rw [hbelow] at hshape
            cases hshape
        · rw [hentry, if_neg hk]

/-- A plain tree stays plain with it. -/
theorem plain_of_oneModule {l : Location} {t t' : FileTree} (ht : Plain t) (h : Laid (oneModule l) t t')
    (hl : ∀ n ∈ l, Path.IsName n ∧ Utf8.nameForm n = n ∧ Nameable n) : Plain t' := by
  refine ht.of_laid h (fun k e hk n hn => ?_) fun k path hk => ?_
  · have hmem : n ∈ l ∨ n = madeName := by
      rcases oneModule_cases hk with ⟨rfl, -⟩ | ⟨rfl, -⟩
      · exact .inl hn
      · simpa using hn
    rcases hmem with hmem | rfl
    · exact hl n hmem
    · decide
  · rcases oneModule_cases hk with ⟨-, he⟩ | ⟨-, he⟩ <;> cases he

/-- **The compiler does what is asked of one**, for an output that is a directory at the top. -/
theorem compiles_oneModuleTools {n : Text} {c : Compilation} {t : FileTree}
    (hname : Path.IsName n ∧ Utf8.nameForm n = n ∧ Nameable n) (hout : Path.names c.outDir = [n])
    (hinputs : c.inputs ≠ []) (hvacant : t.entryAt? [n] = none) :
    Compiles (oneModuleTools [n]) c t (oneModule [n]) where
  below k e h := by
    rw [hout]
    rcases oneModule_cases h with ⟨rfl, rfl⟩ | ⟨rfl, rfl⟩
    · exact .inr ⟨rfl, List.prefix_rfl⟩
    · exact .inl ⟨[madeName], by simp, rfl⟩
  accepts k e h := by
    rcases oneModule_cases h with ⟨rfl, rfl⟩ | ⟨rfl, rfl⟩
    · exact .inl hvacant
    · exact .inl (entryAt?_eq_none_of_below hvacant (List.prefix_append ..))
  again u hplain _ hroom := by
    have hlaid : Laid (oneModule [n]) u (withModule [n] u) :=
      laid_withModule (d := []) (entryAt?_root u) hroom
    refine ⟨withModule [n] u, ?_, plain_of_oneModule hplain hlaid fun m hm => ?_, hlaid⟩
    · rw [if_neg hinputs]
      rfl
    · rw [List.mem_singleton.1 hm]
      exact hname

/-- A file on a way without links is what its path holds. -/
theorem holds_of_entryAt? {t : FileTree} {p : Text} {content : Bytes} (hfree : LinkFree t)
    (hp : Path.Straight p) (hfits : Fits p) (h : t.entryAt? (placeOf p) = some (.file content)) :
    t.Holds p content := by
  unfold Holds
  rw [findLink?_eq_find? hfree hp, find?_eq_some_iff hfree hp]
  exact ⟨hfits, h⟩

/-- A project with one source. -/
def smallProject : FileTree :=
  ⟨[("src", .directory [("a.ts", .file [65])]), ("tsconfig.json", .file ("\x7b\x7d\n".toUTF8.toList)),
    ("package.json", .file bareContent)], [], .closed⟩

/-- A build of it, with nobody to be asked. -/
def silentRequest : BuildRequest := { askingRequest with prompt := none }

theorem repeatable_smallProject :
    Repeatable bareConfig (placeOf "/package.json") (oneModule ["dist"]) smallProject where
  plain := by
    have hnames : smallProject.top.allNames
        = (["src", "a.ts", "tsconfig.json", "package.json"] : List Text) := by
      simp [smallProject, Forest.allNames_cons, Forest.allNames, Node.children]
    refine plain_of_allNames (by rw [hnames]; decide) (by decide) ?_
    simp [smallProject, Forest.hasNoLink]
  rootDir := by unfold Path.Spelled; decide
  outDir := by unfold Path.Spelled; decide
  vacant := by decide
  apart := by decide
  assets asset hmem := by cases hmem

theorem configured_smallProject : ∃ warnings,
    configured silentRequest ⟨smallProject, []⟩ = .ok (bareConfig, warnings) := by
  obtain ⟨warnings, h⟩ := configured_bareProject (w := ⟨smallProject, []⟩)
    (holds_of_entryAt? repeatable_smallProject.plain.linkFree straight_tsconfig.1 (by decide) rfl)
  refine ⟨warnings, ?_⟩
  rw [show configured silentRequest ⟨smallProject, []⟩ = configured askingRequest ⟨smallProject, []⟩ from rfl, h,
    Manifest.loadModule, load_bareManifest (holds_of_entryAt? repeatable_smallProject.plain.linkFree
      straight_manifest (by decide) rfl)]
  rfl

theorem found_smallProject : Found bareConfig smallProject ["/src/a.ts"] := by
  unfold Found
  cbv

/-- The first build of the project records how its module is started. -/
theorem run_smallProject :
    ∃ r w', (run (oneModuleTools ["dist"]) silentRequest).runOn ⟨smallProject, []⟩ = (.ok r, w')
      ∧ r.startScript = some ("node dist/index.js" : Text) := by
  obtain ⟨warnings, hconfigured⟩ := configured_smallProject
  have hpath : Manifest.pathIn (projectOf silentRequest ⟨smallProject, []⟩) = "/package.json" := by decide
  obtain ⟨hp, -⟩ := straight_pathIn silentRequest ⟨smallProject, []⟩
  rw [hpath] at hp
  have hcompiles := compiles_oneModuleTools (n := "dist") (t := smallProject)
    (c := ⟨["/src/a.ts"], bareConfig.outDir, some bareConfig.rootDir⟩) (by decide) (by decide) (by simp)
    (by decide)
  have hcompiled : Plain (withModule ["dist"] smallProject) := by
    obtain ⟨u, hu, hplain, -⟩ := hcompiles.again smallProject repeatable_smallProject.plain (fun _ _ => rfl)
      hcompiles.accepts
    cases hu
    exact hplain
  obtain ⟨events, hrun⟩ := run_eq_finish (oneModuleTools ["dist"])
    (u := withModule ["dist"] smallProject) hconfigured found_smallProject (fun _ => rfl) rfl
  rw [hpath] at hrun
  obtain ⟨r1, w2, hnormalize, -, htreated⟩ := normalizeModules_treated
    (w := ⟨withModule ["dist"] smallProject, events⟩) bareConfig
    (compiledResult silentRequest bareConfig ["/src/a.ts"] warnings) hcompiled.proper hcompiled.linkFree
    hcompiled.genuine
    (Config.Placed.of_configured hconfigured).outDir repeatable_smallProject.outDir
  obtain ⟨r2, e3, hplace⟩ : ∃ r2 e3, (placeAssets bareConfig r1).runOn w2 = (.ok r2, ⟨w2.tree, e3⟩) :=
    ⟨_, _, rfl⟩
  -- names and the manifest are as the compiler has left them
  have hentry : entryIn bareConfig w2.tree = .ok (some "index.js") := by
    rw [← entryIn_alike htreated.alike hcompiled.linkFree]
    cbv
  have hload : Manifest.load w2.tree "/package.json" = .ok bareManifest := by
    rw [← Manifest.load_congr hcompiled.linkFree hp fun k hk => (htreated.outside fun hpre =>
      absurd (hpre.trans hk) (by decide)).symm]
    exact load_bareManifest (holds_of_entryAt? hcompiled.linkFree straight_manifest (by decide) rfl)
  obtain ⟨t, hsave⟩ : ∃ t, w2.tree.replaceText "/package.json"
      (bareManifest.withStart (startScript (outDirReference bareConfig) "index.js")).content = .ok t := by
    have hsome : ((withModule ["dist"] smallProject).replaceText "/package.json" (bareManifest.withStart
        (startScript (outDirReference bareConfig) "index.js")).content).toOption.isSome = true := by cbv
    cases hreplace : (withModule ["dist"] smallProject).replaceText "/package.json"
        (bareManifest.withStart (startScript (outDirReference bareConfig) "index.js")).content with
    | ok t => exact htreated.alike.exists_replaceText hreplace
    | error failure =>
      rw [hreplace] at hsome
      cases hsome
  obtain ⟨e4, hstart⟩ := runOn_recordStart (w := ⟨w2.tree, e3⟩) hentry hload r2
  dsimp only at hstart
  rw [hsave] at hstart
  obtain ⟨-, -, -, m', hload', -⟩ := recordStart_recorded (w := ⟨w2.tree, e3⟩)
    (htreated.linkFree hcompiled.linkFree) hp hload rfl hstart
  obtain ⟨r, hconclude, hagrees⟩ := gives_conclude hload'
    { r2 with
      entryPath := some "index.js"
      startScript := some (startScript (outDirReference bareConfig) "index.js") }
  obtain ⟨e5, hconclude⟩ := hconclude e4
  refine ⟨r, ⟨t, e5⟩, ?_, ?_⟩
  · rw [hrun, finish_eq, runOn_bind, hnormalize]
    dsimp only
    rw [runOn_bind, hplace]
    dsimp only
    rw [runOn_bind, hstart]
    exact hconclude
  · have hwords : startScript (outDirReference bareConfig) "index.js" = "node dist/index.js" := by decide
    rw [hagrees.startScript, hwords]

theorem run_again_smallProject :
    ∃ r w', (run (oneModuleTools ["dist"]) silentRequest).runOn ⟨smallProject, []⟩ = (.ok r, w')
      ∧ r.startScript = some ("node dist/index.js" : Text)
      ∧ ∃ r' w'', (run (oneModuleTools ["dist"]) silentRequest).runOn ⟨w'.tree, w'.events⟩ = (.ok r', w'')
        ∧ Agrees r r' ∧ w''.tree.workingDir = w'.tree.workingDir
        ∧ ∀ k, w''.tree.entryAt? k = w'.tree.entryAt? k := by
  obtain ⟨r, w', hrun, hstart⟩ := run_smallProject
  obtain ⟨warnings, hconfigured⟩ := configured_smallProject
  have hpath : Manifest.pathIn (projectOf silentRequest ⟨smallProject, []⟩) = "/package.json" := by decide
  have hproject : Repeatable bareConfig (placeOf (Manifest.pathIn (projectOf silentRequest ⟨smallProject, []⟩)))
      (oneModule ["dist"]) smallProject := by
    rw [hpath]
    exact repeatable_smallProject
  have hcompiles : Compiles (oneModuleTools ["dist"]) ⟨["/src/a.ts"], bareConfig.outDir,
      some bareConfig.rootDir⟩ smallProject (oneModule ["dist"]) :=
    compiles_oneModuleTools (by decide) (by decide) (by simp) (by decide)
  exact ⟨r, w', hrun, hstart, run_again hconfigured hproject (by decide) rfl found_smallProject
    (fun _ _ _ _ => rfl) hcompiles hrun w'.events⟩

/-! ## §4. An output that is written with another root. -/

/-- Where no name is that of an entry module, none is found. -/
theorem entryIn_eq_none {t : FileTree} {config : Config} {l : Location} (hproper : Proper t)
    (hindex : config.indexPath = none) (hdir : t.namesDirectory config.outDir = true)
    (hopen : t.openDirectory (t.absolute config.outDir) = .ok l)
    (hnames : ∀ n ∈ t.top.allNames, Text.lower n ≠ Text.lower config.indexFileName) :
    entryIn config t = .ok none := by
  obtain ⟨sightings, hwalk, entries, hlisted, hmem, -⟩ := lists_walk hproper config.outDir config.ignoredDirs hopen
  have hnone : (sightings.filterMap Sighting.listed?).find? (Entry.isEntry config.indexFileName) = none := by
    rw [hlisted, List.find?_eq_none]
    intro e he hentry
    obtain ⟨⟨ns, d⟩, hns, rfl⟩ := List.mem_map.1 he
    have hlists := (hmem ns d).1 hns
    have hpresent : t.entryAt? (l ++ ns) ≠ none := hlists.shows.ne_none
    obtain ⟨init, n, rfl⟩ := (List.eq_nil_or_concat ns).resolve_left hlists.below
    rw [List.concat_eq_append] at hpresent hentry
    unfold Entry.isEntry at hentry
    rw [baseName_below (straight_absolute t config.outDir) fun m hm =>
      hproper.names _ hpresent m (List.mem_append_right _ hm), Bool.and_eq_true, decide_eq_true_eq] at hentry
    exact hnames n (mem_allNames hpresent (by simp)) hentry.2
  unfold entryIn
  rw [hindex]
  dsimp only
  rw [if_pos hdir, hwalk]
  show Except.ok (((sightings.filterMap Sighting.listed?).find? _).map _) = _
  rw [hnone]
  rfl

/-- A configuration that names a directory of the sources which is ignored, and an asset in it. -/
def slashedDocument : Json.Members :=
  [("typebuild", .object
    [("ignoredDirs", .array [.string "/src/lib"]), ("staticFiles", .array [.string "lib/a.ts"])])]

/-- The file that holds it. -/
def slashedContent : Bytes :=
  ("\x7b\n  \"typebuild\": \x7b\n    \"ignoredDirs\": [\n      \"/src/lib\"\n    ],\n    \"staticFiles\": [\n" ++
    "      \"lib/a.ts\"\n    ]\n  \x7d\n\x7d\n").toUTF8.toList

/-- A project with one source in an ignored directory, with something beside that directory, and with
two documents. -/
def slashedTree (beside : Forest) (document manifest : Bytes) : FileTree :=
  ⟨[("src", .directory (beside ++ ([("lib", .directory [("a.ts", .file [65])])] : Forest))),
    ("tsconfig.json", .file document), ("package.json", .file manifest)], [], .closed⟩

/-- A project with one source, which is ignored. -/
def slashedProject : FileTree := slashedTree [] slashedContent bareContent

/-- The project with its source in the output, where it was placed as an asset. -/
def slashedPlaced : FileTree :=
  slashedTree [("out", .directory [("lib", .directory [("a.ts", .file [65])])])] slashedContent bareContent

/-- A build of it whose output lies below the sources, and is written with two slashes. -/
def slashedRequest : BuildRequest := ⟨"/", ⟨some "//src/out", some "src", none⟩, false, none, 0⟩

/-- Its configuration. -/
def slashedConfig : Config where
  projectDir := "/"
  rootDir := "/src"
  outDir := "//src/out"
  outDirName := "//src/out"
  ignoredDirs := Config.effectiveIgnored ["/src/lib"] "//src/out" (some "//src/out")
  indexFileName := "index.js"
  markerNames := []
  assetPaths := ["lib/a.ts"]
  indexPath := none
  strict := false

theorem configured_slashed {w : World} (hdocument : w.tree.Holds "/tsconfig.json" slashedContent)
    (hmanifest : w.tree.Holds "/package.json" bareContent) :
    ∃ warnings, configured slashedRequest w = .ok (slashedConfig, warnings) := by
  have hproject : projectOf slashedRequest w = "/" := projectOf_askingRequest w
  have hpath : Path.join "/" Config.fileName = "/tsconfig.json" := by decide
  have hpath' : Manifest.pathIn "/" = "/package.json" := by decide
  have hwritable : Json.Writable (.object slashedDocument) := by
    have hlist : ∀ s : Text, Json.Writable (.array [.string s]) := fun s =>
      .array fun v hv => by rw [List.mem_singleton.1 hv]; exact .string _
    refine .object (by simp [slashedDocument]) fun m hm => ?_
    rw [List.mem_singleton.1 hm]
    refine .object (by decide) fun m hm => ?_
    rcases List.mem_pair.1 hm with rfl | rfl
    · exact hlist _
    · exact hlist _
  have hencode : Utf8.encode (Json.render (.object slashedDocument) ++ [CodePoint.lineFeed])
      = .ok slashedContent := by cbv
  have hread : Config.readDocument w.tree "/" = .ok slashedDocument := by
    rw [Config.readDocument, hpath, if_pos hdocument.namesFile,
      FileTree.readObject_saved hwritable hencode hdocument.readBytes]
    rfl
  have hdescribed : ∃ described warnings,
      Config.ofDocument "/" (.object slashedDocument) = .ok (described, warnings)
        ∧ described.override slashedRequest.overrides = slashedConfig := ⟨_, _, rfl, rfl⟩
  obtain ⟨described, warnings, hdescribed, hoverride⟩ := hdescribed
  refine ⟨warnings, (configured_eq_ok_iff _ _).2 ⟨slashedDocument, described, bareManifest, ?_⟩⟩
  rw [hproject, hpath']
  exact ⟨hread, hdescribed, load_bareManifest hmanifest, rfl, hoverride.symm⟩

theorem straight_of_absolute {p : Text} (h : slashedProject.absolute p = p) : Path.Straight p :=
  h ▸ straight_absolute slashedProject p

theorem plain_slashedProject : Plain slashedProject := by
  have hnames : slashedProject.top.allNames
      = (["src", "lib", "a.ts", "tsconfig.json", "package.json"] : List Text) := by
    simp [slashedProject, slashedTree, Forest.allNames_cons, Forest.allNames, Node.children]
  refine plain_of_allNames (by rw [hnames]; decide) (by decide) ?_
  simp [slashedProject, slashedTree, Forest.hasNoLink]

theorem allNames_slashedPlaced : slashedPlaced.top.allNames
    = (["src", "out", "lib", "a.ts", "lib", "a.ts", "tsconfig.json", "package.json"] : List Text) := by
  simp [slashedPlaced, slashedTree, Forest.allNames_cons, Forest.allNames, Node.children]

theorem plain_slashedPlaced : Plain slashedPlaced := by
  refine plain_of_allNames (by rw [allNames_slashedPlaced]; decide) (by decide) ?_
  simp [slashedPlaced, slashedTree, Forest.hasNoLink]

theorem holds_slashedProject :
    slashedProject.Holds "/tsconfig.json" slashedContent ∧ slashedProject.Holds "/package.json" bareContent :=
  ⟨holds_of_entryAt? plain_slashedProject.linkFree straight_tsconfig.1 (by decide) rfl,
    holds_of_entryAt? plain_slashedProject.linkFree straight_manifest (by decide) rfl⟩

theorem holds_slashedPlaced :
    slashedPlaced.Holds "/tsconfig.json" slashedContent ∧ slashedPlaced.Holds "/package.json" bareContent :=
  ⟨holds_of_entryAt? plain_slashedPlaced.linkFree straight_tsconfig.1 (by decide) rfl,
    holds_of_entryAt? plain_slashedPlaced.linkFree straight_manifest (by decide) rfl⟩

theorem straight_slashed : Path.Straight slashedConfig.rootDir ∧ Path.Straight slashedConfig.outDir :=
  ⟨straight_of_absolute (by decide), straight_of_absolute (by decide)⟩

theorem found_slashedProject : Found slashedConfig slashedProject [] := by
  obtain ⟨hroot, -⟩ := straight_slashed
  have hself : slashedProject.absolute slashedConfig.rootDir = slashedConfig.rootDir := by decide
  have hopen : slashedProject.openDirectory (slashedProject.absolute slashedConfig.rootDir)
      = .ok [("src" : Text)] := by
    rw [hself, openDirectory_eq_ok_iff plain_slashedProject.linkFree hroot]
    exact ⟨by decide, by decide, by decide⟩
  obtain ⟨nss, hwalk, -, hmem⟩ := Listing.walk_opened plain_slashedProject.proper hopen
    (plain_slashedProject.linkFree.at _) slashedConfig.ignoredDirs [Specifier.sourceExtension] [".d.ts"]
  rw [hself] at hwalk hmem
  have hnone : nss = [] := by
    refine List.eq_nil_iff_forall_not_mem.2 fun ns hns => ?_
    obtain ⟨hreached, ⟨content, hfile⟩, -⟩ := (hmem ns).1 hns
    obtain ⟨n, rest, rfl⟩ := List.exists_cons_of_ne_nil hreached.below
    -- the only directory of the sources is ignored
    have hlib : n = "lib" := by
      by_contra hne
      refine ne_none_of_eq_some hfile (entryAt?_eq_none_of_below (l := ["src", n]) ?_ ⟨rest, rfl⟩)
      have hbeq : (n == ("lib" : Text)) = false := beq_false_of_ne hne
      simp [slashedProject, slashedTree, FileTree.entryAt?, Forest.entryAt?, Forest.nodeAt?_cons, Node.children,
        List.lookup_cons, hbeq]
    subst hlib
    refine hreached.way ["lib"] (List.cons_ne_nil _ _) ⟨rest, rfl⟩ (fun hall => ?_) ?_
    · rw [← hall] at hfile
      cases hfile
    · refine ⟨"/src/lib", .inr (.inr (by decide)), .inl ?_⟩
      rw [← NameSet.contains_iff]
      decide
  rw [hnone] at hwalk
  exact hwalk

theorem repeatable_slashedProject :
    Repeatable slashedConfig (placeOf "/package.json") (fun _ => none) slashedProject where
  plain := plain_slashedProject
  rootDir := by unfold Path.Spelled; decide
  outDir := by unfold Path.Spelled; decide
  vacant := by decide
  apart := by decide
  assets asset hmem _ := by
    obtain rfl : asset = "lib/a.ts" := List.mem_singleton.1 hmem
    refine ⟨⟨by unfold Path.Spelled; decide, by decide, fun h => ?_, by decide⟩, fun j e _ h => ?_⟩
    · exact absurd h (by decide)
    · cases h

theorem judge_slashedProject :
    Assets.judge slashedProject "/src" "//src/out" "lib/a.ts" = .ok .allowed := by
  have hfree := plain_slashedProject.linkFree
  have hfrom : Assets.pathIn "/src" "lib/a.ts" = "/src/lib/a.ts" := by decide
  have hasset : Path.Straight "/src/lib/a.ts" := straight_of_absolute (by decide)
  have hroot : Path.Straight "/src" := straight_slashed.1
  have hout : Path.Straight "//src/out" := straight_slashed.2
  rw [Assets.judge_eq_allowed_iff, hfrom, pathExists_iff hfree hasset,
    isWithin_straight hfree hasset hroot, isWithin_straight hfree hout hasset,
    checkPath_eq_ok_iff, checkPath_eq_ok_iff, checkPath_eq_ok_iff]
  decide

theorem renew_slashedTree (document manifest : Bytes) :
    (Edit.renew "/src/lib/a.ts" "//src/out/lib/a.ts").runOn (slashedTree [] document manifest)
      = (.ok (), slashedTree [("out", .directory [("lib", .directory [("a.ts", .file [65])])])] document
          manifest) := by
  cbv

/-- The source is placed in the output. -/
theorem placeAssets_slashedProject (r : BuildResult) (events : List Event) :
    ∃ r' events', (placeAssets slashedConfig r).runOn ⟨slashedProject, events⟩
      = (.ok r', ⟨slashedPlaced, events'⟩) ∧ r'.ok = r.ok := by
  have hto : Assets.pathIn "//src/out" "lib/a.ts" = "//src/out/lib/a.ts" := by decide
  have hfrom : Assets.pathIn "/src" "lib/a.ts" = "/src/lib/a.ts" := by decide
  have hassets : slashedConfig.assetPaths = [("lib/a.ts" : Text)] := rfl
  have hone : ∀ events, ∃ r' events', (Assets.placeOne slashedConfig.rootDir slashedConfig.outDir "lib/a.ts"
      .empty).runOn ⟨slashedProject, events⟩ = (.ok r', ⟨slashedPlaced, events'⟩) := by
    intro events
    obtain ⟨base, events', -, -, hplace⟩ := Assets.runOn_placeOne_of_allowed
      (w := ⟨slashedProject, events⟩) .empty plain_slashedProject.linkFree (by decide) judge_slashedProject
    dsimp only at hplace
    rw [hto, hfrom, slashedProject, renew_slashedTree] at hplace
    exact ⟨_, _, hplace⟩
  obtain ⟨report, events', hone⟩ := hone (events ++ [.stageBegan "Static files progress:"])
  unfold placeAssets Assets.place
  rw [hassets, if_neg (List.cons_ne_nil _ _), runOn_bind, runOn_note]
  dsimp only
  rw [if_neg (List.cons_ne_nil _ _), runOn_bind, runOn_bind]
  unfold Assets.placeFrom
  rw [runOn_bind, hone]
  exact ⟨_, _, rfl, rfl⟩

theorem projectOf_slashed (w : World) : Manifest.pathIn (projectOf slashedRequest w) = "/package.json" := by
  rw [show projectOf slashedRequest w = "/" from projectOf_askingRequest w]
  decide

/-- The first build of the project places the source in the output, and no more. -/
theorem run_slashedProject_first : ∃ r events,
    (run (oneModuleTools ["src", "out", "out"]) slashedRequest).runOn ⟨slashedProject, []⟩
      = (.ok r, ⟨slashedPlaced, events⟩) ∧ r.ok = true := by
  obtain ⟨warnings, hconfigured⟩ := configured_slashed (w := ⟨slashedProject, []⟩)
    holds_slashedProject.1 holds_slashedProject.2
  obtain ⟨events, hrun⟩ := run_eq_finish (oneModuleTools ["src", "out", "out"])
    (u := slashedProject) hconfigured found_slashedProject (fun _ => rfl) rfl
  rw [projectOf_slashed] at hrun
  -- there is no output yet
  have hvacant : slashedProject.namesDirectory slashedConfig.outDir = false := by
    rw [Bool.eq_false_iff, ne_eq, namesDirectory_iff plain_slashedProject.linkFree straight_slashed.2]
    decide
  obtain ⟨r1, e1, hnormalize, hok⟩ : ∃ r1 e1, (normalizeModules slashedConfig (compiledResult slashedRequest
      slashedConfig [] warnings)).runOn ⟨slashedProject, events⟩ = (.ok r1, ⟨slashedProject, e1⟩)
        ∧ r1.ok = true := by
    obtain ⟨r1, e1, hnormalize, hok⟩ := normalizeModules_of_vacant hvacant
      (compiledResult slashedRequest slashedConfig [] warnings) events
    exact ⟨r1, e1, hnormalize, hok⟩
  obtain ⟨r2, e2, hplace, hok2⟩ := placeAssets_slashedProject r1 e1
  have hentry : entryIn slashedConfig slashedPlaced = .ok none := by
    have hopen : slashedPlaced.openDirectory (slashedPlaced.absolute slashedConfig.outDir)
        = .ok ["src", "out"] := by
      rw [absolute_straight _ straight_slashed.2,
        openDirectory_eq_ok_iff plain_slashedPlaced.linkFree straight_slashed.2]
      decide
    have hdir : slashedPlaced.namesDirectory slashedConfig.outDir = true := by
      rw [namesDirectory_iff plain_slashedPlaced.linkFree straight_slashed.2]
      decide
    exact entryIn_eq_none plain_slashedPlaced.proper rfl hdir hopen
      (by rw [allNames_slashedPlaced]; decide)
  obtain ⟨r3, hstart, hagrees3⟩ := gives_recordStart_none hentry "/package.json" r2
  obtain ⟨e3, hstart⟩ := hstart e2
  obtain ⟨r, hconclude, hagrees⟩ := gives_conclude (load_bareManifest holds_slashedPlaced.2) r3
  obtain ⟨e4, hconclude⟩ := hconclude e3
  refine ⟨r, e4, ?_, ?_⟩
  · rw [hrun, finish_eq, runOn_bind, hnormalize]
    dsimp only
    rw [runOn_bind, hplace]
    dsimp only
    rw [runOn_bind, hstart]
    exact hconclude
  · rw [hagrees.ok, hagrees3.ok, hok2, hok]

/-- In the second build the copy is a source. -/
theorem found_slashedPlaced :
    ∃ inputs, Found slashedConfig slashedPlaced inputs ∧ ("/src/out/lib/a.ts" : Text) ∈ inputs := by
  obtain ⟨hroot, -⟩ := straight_slashed
  have hself : slashedPlaced.absolute slashedConfig.rootDir = slashedConfig.rootDir :=
    absolute_straight _ hroot
  have hopen : slashedPlaced.openDirectory (slashedPlaced.absolute slashedConfig.rootDir)
      = .ok [("src" : Text)] := by
    rw [hself, openDirectory_eq_ok_iff plain_slashedPlaced.linkFree hroot]
    decide
  obtain ⟨nss, hwalk, -, hmem⟩ := Listing.walk_opened plain_slashedPlaced.proper hopen
    (plain_slashedPlaced.linkFree.at _) slashedConfig.ignoredDirs [Specifier.sourceExtension] [".d.ts"]
  rw [hself] at hwalk hmem
  have hpath : Path.below slashedConfig.rootDir ["out", "lib", "a.ts"] = "/src/out/lib/a.ts" := by decide
  refine ⟨_, hwalk, List.mem_map.2 ⟨["out", "lib", "a.ts"], (hmem _).2 ⟨⟨List.cons_ne_nil _ _, ?_⟩, ?_, ?_⟩,
    hpath⟩⟩
  · -- neither the output nor the directory in it is ignored
    rintro k hk hpre hne ⟨form, hform, hmem⟩
    have hway : k = ([("out" : Text)] : List Text) ∨ k = ([("out" : Text), ("lib" : Text)] : List Text) := by
      have hinits := (List.mem_inits k _).2 hpre
      simp only [List.inits, List.map_cons, List.map_nil, List.mem_cons, List.not_mem_nil, or_false] at hinits
      rcases hinits with rfl | rfl | rfl | rfl
      · exact absurd rfl hk
      · exact .inl rfl
      · exact .inr rfl
      · exact absurd rfl hne
    have hname : form = "out" ∨ form = "/src/out" ∨ form = "lib" ∨ form = "out/lib" ∨ form = "/src/out/lib" := by
      have h1 : Path.toForwardSlashes (Text.joinWith "/" (["out"] : List Text)) = "out" := by decide
      have h2 : Path.normalize (Path.below slashedConfig.rootDir ["out"]) = "/src/out" := by decide
      have h3 : Path.toForwardSlashes (Text.joinWith "/" (["out", "lib"] : List Text)) = "out/lib" := by decide
      have h4 : Path.normalize (Path.below slashedConfig.rootDir ["out", "lib"]) = "/src/out/lib" := by decide
      rcases hway with rfl | rfl
      · rw [h1, h2] at hform
        rcases hform with rfl | rfl | rfl <;> simp
      · rw [h3, h4] at hform
        rcases hform with rfl | rfl | rfl <;> simp
    rw [← NameSet.contains_iff] at hmem
    rcases hname with rfl | rfl | rfl | rfl | rfl <;> exact absurd hmem (by decide)
  · exact ⟨[65], by decide⟩
  · rw [hpath]
    exact ⟨by decide, by decide⟩

/-- **A second build does not repeat the first** if the output is written with another root: nothing
that the first has placed keeps the second from compiling it, and a module appears that was not
there. -/
theorem run_slashedProject :
    ∃ warnings r w', configured slashedRequest ⟨slashedProject, []⟩ = .ok (slashedConfig, warnings)
      ∧ Repeatable slashedConfig (placeOf "/package.json") (fun _ => none) slashedProject
      ∧ (run (oneModuleTools ["src", "out", "out"]) slashedRequest).runOn ⟨slashedProject, []⟩ = (.ok r, w')
      ∧ r.ok = true
      ∧ ¬ ∃ r' w'', (run (oneModuleTools ["src", "out", "out"]) slashedRequest).runOn w' = (.ok r', w'')
          ∧ ∀ k, w''.tree.entryAt? k = w'.tree.entryAt? k := by
  obtain ⟨warnings, hfirst⟩ := configured_slashed (w := ⟨slashedProject, []⟩)
    holds_slashedProject.1 holds_slashedProject.2
  obtain ⟨r, events, hrun, hok⟩ := run_slashedProject_first
  refine ⟨warnings, r, ⟨slashedPlaced, events⟩, hfirst, repeatable_slashedProject, hrun, hok, ?_⟩
  rintro ⟨r', w'', hagain, hsame⟩
  obtain ⟨warnings', hconfigured⟩ := configured_slashed (w := ⟨slashedPlaced, events⟩)
    holds_slashedPlaced.1 holds_slashedPlaced.2
  obtain ⟨inputs, hfound, hmem⟩ := found_slashedPlaced
  have hne : inputs ≠ [] := List.ne_nil_of_mem hmem
  have hroom : Accepts (oneModule ["src", "out", "out"]) slashedPlaced := by
    intro k e h
    rcases oneModule_cases h with ⟨rfl, -⟩ | ⟨rfl, -⟩ <;> exact .inl (by decide)
  have hlaid : Laid (oneModule ["src", "out", "out"]) slashedPlaced
      (withModule ["src", "out", "out"] slashedPlaced) :=
    laid_withModule (d := ["src", "out"]) (by decide) hroom
  have hplain := plain_of_oneModule plain_slashedPlaced hlaid (by decide)
  obtain ⟨events1, hsecond⟩ := run_eq_finish (w := ⟨slashedPlaced, events⟩)
    (oneModuleTools ["src", "out", "out"]) hconfigured hfound (fun _ => rfl)
    ((if_neg hne).mpr rfl)
  rw [hsecond, projectOf_slashed, show slashedRequest.prompt = none from rfl, finish_eq] at hagain
  obtain ⟨r1, w2, hnormalize, hagain⟩ := exists_of_runOn_bind hagain
  obtain ⟨r2, w3, hplace, hagain⟩ := exists_of_runOn_bind hagain
  obtain ⟨r3, w4, hstart, hconclude⟩ := exists_of_runOn_bind hagain
  obtain ⟨r1', w2', hnormalize', -, htreated⟩ := normalizeModules_treated
    (w := ⟨withModule ["src", "out", "out"] slashedPlaced, events1⟩) slashedConfig
    (compiledResult slashedRequest slashedConfig inputs warnings') hplain.proper hplain.linkFree hplain.genuine
    straight_slashed.2 repeatable_slashedProject.outDir
  rw [hnormalize] at hnormalize'
  cases hnormalize'
  have hrunnable := hplain.of_alike htreated.alike
  obtain ⟨hstocked, hmoved⟩ := placeAssets_stocked straight_slashed.1 repeatable_slashedProject.rootDir
    straight_slashed.2 repeatable_slashedProject.outDir repeatable_slashedProject.output_ne_nil
    hrunnable.proper hrunnable.linkFree
    (fun asset hmem habs => (repeatable_slashedProject.assets asset hmem habs).1) hplace
  obtain ⟨hp, -⟩ := straight_pathIn slashedRequest ⟨slashedProject, []⟩
  rw [projectOf_slashed] at hp
  -- the manifest is as it was
  have hway : ∀ k, k <+: placeOf "/package.json" → slashedPlaced.entryAt? k = w3.tree.entryAt? k := by
    intro k hk
    have hout : ¬ Path.names slashedConfig.outDir <+: k := fun h => absurd (h.trans hk) (by decide)
    have hmade : oneModule ["src", "out", "out"] k = none := by
      cases h : oneModule ["src", "out", "out"] k with
      | none => rfl
      | some e =>
        rcases oneModule_cases h with ⟨rfl, -⟩ | ⟨rfl, -⟩ <;> exact absurd hk (by decide)
    have hsame : w2.tree.entryAt? k = slashedPlaced.entryAt? k :=
      (htreated.outside hout).trans (hlaid.of_not_made hmade)
    rcases hstocked.outside k hout with h | ⟨hnone, -⟩
    · exact (h.trans hsame).symm
    · rw [hsame] at hnone
      exact absurd (entryAt?_eq_none_of_below hnone hk) (by decide)
  have hload : Manifest.load w3.tree "/package.json" = .ok bareManifest := by
    rw [← Manifest.load_congr plain_slashedPlaced.linkFree hp hway]
    exact load_bareManifest holds_slashedPlaced.2
  obtain ⟨-, -, hothers, m', hload', -⟩ := recordStart_recorded hstocked.free hp hload rfl hstart
  obtain ⟨r4, hgives, -⟩ := gives_conclude hload' r3
  obtain ⟨events4, hend⟩ := hgives w4.events
  rw [hconclude] at hend
  cases hend
  -- the module that was made is still there
  have hmodule : w3.tree.entryAt? ["src", "out", "out", madeName] ≠ none := by
    have hpresent : w2.tree.entryAt? ["src", "out", "out", madeName] ≠ none :=
      htreated.present.2 (ne_none_of_eq_some (hlaid.of_made (e := .file [65]) (by decide)))
    rcases hmoved ["src", "out", "out", madeName] with h | ⟨hnone, -⟩ | ⟨asset, hasset, -, -, hpre⟩
    · rwa [h]
    · exact absurd hnone hpresent
    · obtain rfl : asset = "lib/a.ts" := List.mem_singleton.1 hasset
      exact absurd hpre (by decide)
  refine hmodule ?_
  rw [← hothers _ (by decide), hsame]
  exact show slashedPlaced.entryAt? ["src", "out", "out", madeName] = none by decide

end Build

end ModuleBuild
