/-
  ModuleBuild.Build.Run
  ─────────────────────
  **A BUILD FROM START TO END.**

  A build reads the configuration and the manifest, checks types if asked to,
  compiles the sources, makes the emitted modules runnable, places static
  assets, records how the program is started, and asks once per project
  whether it should run by itself.  A stage does all its work before the next
  begins.

  Without a usable configuration, or when a tool fails, the build ends early
  and has written nothing of its own.

  Main results:
    * `isReported_of_isSystemFault` — a configuration that cannot be read ends the build with a
      result.
-/
import ModuleBuild.Build.Result
import ModuleBuild.Build.Toolchain
import ModuleBuild.Output.Assets
import ModuleBuild.Output.Entry
import ModuleBuild.Output.Modules
import ModuleBuild.Project.Scripts

namespace ModuleBuild

/-- Who answers the automation question. -/
structure Prompt where
  /-- What is shown on the terminal before the answer is read. -/
  shown : Text
  answer : Option Text

/-- What a build is asked to do. -/
structure BuildRequest where
  projectDir : Text
  overrides : Overrides
  skipTypeCheck : Bool
  prompt : Option Prompt
  /-- How long the build takes, by the clock of whoever asks for it. -/
  durationMs : Int

namespace Build

/-- The part of the program that logs how the build goes. -/
def logger : Text := "typebuild.core.pipeline.engine"

/-! ## §1. Configuration. -/

/-- The configuration of a project whose manifest declares modules, and its warnings. -/
def configure (projectDir : Text) (overrides : Overrides) : Action (Config × List Text) := do
  let (config, warnings) ← Config.load projectDir
  let _ ← Edit.ask (Manifest.loadModule · (Manifest.pathIn projectDir))
  return (config.override overrides, warnings)

/-- Whether a failure of the configuration ends the build with a result. -/
def isReported (failure : Failure) : Bool := failure.isSystemFault || failure.isValueFault

theorem isReported_of_isSystemFault {failure : Failure} (h : failure.isSystemFault = true) :
    isReported failure = true := by
  simp [isReported, h]

/-! ## §2. Stages. -/

/-- Logs a warning and adds it to those of the result. -/
def warn (r : BuildResult) (words : Text) : Action BuildResult := do
  Action.log .warning logger words
  return { r with warnings := r.warnings ++ [words] }

/-- Makes the emitted modules runnable. -/
def normalizeModules (config : Config) (r : BuildResult) : Action BuildResult := do
  if !(← Action.view (·.namesDirectory config.outDir)) then
    return ← warn r
      (Text.join ["Output directory ", config.outDir, " was not created by the compiler."])
  Action.note (.stageBegan "Fixing import paths:")
  let r := { r with completedModules := ← Modules.completeAll config.outDir config.ignoredDirs }
  if config.markerNames = [] then return ← warn r "You didn't specify the type files."
  Action.note (.stageBegan "Checking type imports:")
  let stripped ← Modules.stripAll config.outDir config.markerNames config.ignoredDirs
  return { r with strippedModules := stripped }

/-- Places the static assets. -/
def placeAssets (config : Config) (r : BuildResult) : Action BuildResult := do
  if config.assetPaths = [] then return ← warn r "You didn't specify the static files."
  Action.note (.stageBegan "Static files progress:")
  let report ← Assets.place config.assetPaths config.rootDir config.outDir
  return { r with
    placedAssets := report.placed
    skippedAssets := report.skipped
    warnings := r.warnings ++
      report.skipped.map fun asset => Text.join ["Static file ", asset, " was skipped."] }

/-- The entry module: the one that the project names, or the one that is found. -/
def entryPath (config : Config) : Action (Option Text) :=
  match config.indexPath with
  | some path => do
    Action.log .debug logger (Text.join ["Using configured indexPath: ", path])
    return some path
  | none => Entry.find config.outDir config.indexFileName config.ignoredDirs

/-- The output directory as the start script names it. -/
def outDirReference (config : Config) : Text :=
  if Path.isAbsolute config.outDirName then config.outDir else config.outDirName

/-- Records how the program is started. -/
def recordStart (config : Config) (manifest : Text) (r : BuildResult) : Action BuildResult := do
  match ← entryPath config with
  | none =>
    warn r "No index file found! You have to manually set the start script in package.json"
  | some path =>
    let script ← Manifest.persistEntry manifest (outDirReference config) path
    return { r with entryPath := some path, startScript := some script }

/-- Asks the automation question, unless it has been answered or nobody can be asked; the result is
the choice that was recorded. -/
def askAutomation (manifest : Text) (prompt : Option Prompt) : Action (Option Choice) := do
  let m ← Edit.ask (Manifest.load · manifest)
  if !m.needsPrompt then
    Action.log .info logger
      (Text.join ["You have already answered the question about running typebuild ",
        "automatically! Skipping..."])
    return none
  match prompt with
  | none =>
    Action.log .debug logger
      "No automation prompt available. Question deferred to the next run."
    return none
  | some p =>
    Action.note (.asked p.shown)
    match p.answer with
    | none => return none
    | some answer => return some (← Manifest.persistChoice manifest (some answer))

/-- Asks the automation question and adds the choice to the result. -/
def recordAutomation (manifest : Text) (prompt : Option Prompt) (r : BuildResult) :
    Action BuildResult := do
  let choice ← askAutomation manifest prompt
  let r := { r with automationChoice := choice.map Choice.letter }
  if choice = some .invalid then
    warn r "Invalid automation choice! No scripts added to package.json."
  else return r

/-! ## §3. The whole build. -/

/-- Ends the build with a failure. -/
def fail (error projectDir : Text) (config : Option Config) (warnings entryPoints : List Text)
    (durationMs : Int) : Action BuildResult := do
  Action.log .error logger error
  return .failed error projectDir config warnings entryPoints durationMs

/-- What is done with the output once the sources are compiled. -/
def finish (config : Config) (manifest : Text) (prompt : Option Prompt) (r : BuildResult) :
    Action BuildResult := do
  let r ← normalizeModules config r
  let r ← placeAssets config r
  let r ← recordStart config manifest r
  let r ← recordAutomation manifest prompt r
  Action.log .info logger
    (Text.join ["Build completed successfully in duration ", Text.ofInt r.durationMs, " ms."])
  return r

/-- The sources that are compiled. -/
def sources (config : Config) : Action (List Text) :=
  Listing.files config.rootDir [Specifier.sourceExtension] config.ignoredDirs [".d.ts"]

/-- Builds a project that is configured. -/
def runConfigured (tools : Toolchain) (request : BuildRequest) (projectDir : Text)
    (config : Config) (warnings : List Text) : Action BuildResult := do
  warnings.forM (Action.log .warning logger)
  let typeFault ←
    if config.strict && !request.skipTypeCheck then tools.checkTypes projectDir else pure none
  match typeFault with
  | some fault =>
    fail (Text.join ["Types check failed. Fix your TypeScript errors before building. (", fault,
      ")"]) projectDir (some config) warnings [] request.durationMs
  | none =>
    let inputs ← sources config
    Action.log .info logger
      (Text.join ["Found ", Text.ofNat inputs.length, " TypeScript files under ",
        config.rootDir])
    match ← tools.compileSources ⟨inputs, config.outDir, some config.rootDir⟩ projectDir with
    | some fault =>
      fail (Text.join ["Build failed: ", fault]) projectDir (some config) warnings inputs
        request.durationMs
    | none =>
      finish config (Manifest.pathIn projectDir) request.prompt
        { BuildResult.completed config inputs request.durationMs with warnings := warnings }

/-- Builds a project. -/
def run (tools : Toolchain) (request : BuildRequest) : Action BuildResult := do
  let projectDir ← Action.view (·.absolute request.projectDir)
  Action.log .info logger "typebuild Build Started..."
  let configured : Except Failure (Config × List Text) ←
    try pure (.ok (← configure projectDir request.overrides))
    catch failure => if isReported failure then pure (.error failure) else throw failure
  match configured with
  | .error failure => fail failure.message projectDir none [] [] request.durationMs
  | .ok (config, warnings) => runConfigured tools request projectDir config warnings

end Build

end ModuleBuild
