/-
  ModuleBuild.Build.Result
  ────────────────────────
  **THE RESULT OF A BUILD.**

  A build ends with a result, also when it fails: whether it succeeded, what
  it found and did, and the warnings on the way.  A result is written as a
  document; one can also be put together from a document that holds the
  outputs of the stages.

  Main results:
    * `failed_exitCode`, `completed_exitCode` — the exit code tells success from failure.
-/
import ModuleBuild.Project.Config

namespace ModuleBuild

/-- What a build returns. -/
structure BuildResult where
  ok : Bool
  error : Text
  exitCode : Int
  projectDir : Text
  outDir : Text
  /-- The sources given to the compiler. -/
  entryPoints : List Text
  /-- How many modules got complete specifiers. -/
  completedModules : Nat
  /-- How many modules lost imports of markers. -/
  strippedModules : Nat
  placedAssets : List Text
  skippedAssets : List Text
  /-- The entry module, seen from the output directory. -/
  entryPath : Option Text
  startScript : Option Text
  automationChoice : Option Text
  warnings : List Text
  durationMs : Int

namespace BuildResult

/-- The exit code of success. -/
def exitOk : Int := 0

/-- The exit code of failure. -/
def exitFailure : Int := 1

/-- The exit code of a program that the user interrupts. -/
def exitInterrupted : Int := 130

/-- The result of a build that failed, with what was known by then. -/
def failed (error projectDir : Text) (config : Option Config) (warnings entryPoints : List Text)
    (durationMs : Int) : BuildResult :=
  { ok := false
    error := error
    exitCode := exitFailure
    projectDir := projectDir
    outDir := (config.map Config.outDir).getD []
    entryPoints := entryPoints
    completedModules := 0
    strippedModules := 0
    placedAssets := []
    skippedAssets := []
    entryPath := none
    startScript := none
    automationChoice := none
    warnings := warnings
    durationMs := durationMs }

theorem failed_exitCode (error projectDir : Text) (config : Option Config)
    (warnings entryPoints : List Text) (durationMs : Int) :
    (failed error projectDir config warnings entryPoints durationMs).exitCode = exitFailure := rfl

/-- The result of a build so far that has done nothing yet. -/
def completed (config : Config) (entryPoints : List Text) (durationMs : Int) : BuildResult :=
  { ok := true
    error := []
    exitCode := exitOk
    projectDir := config.projectDir
    outDir := config.outDir
    entryPoints := entryPoints
    completedModules := 0
    strippedModules := 0
    placedAssets := []
    skippedAssets := []
    entryPath := none
    startScript := none
    automationChoice := none
    warnings := []
    durationMs := durationMs }

theorem completed_exitCode (config : Config) (entryPoints : List Text) (durationMs : Int) :
    (completed config entryPoints durationMs).exitCode = exitOk := rfl

/-! ## §1. As a document. -/

/-- A list of texts as a document. -/
def listDocument (ts : List Text) : Json := .array (ts.map .string)

/-- A text as a document, null if there is none. -/
def optionDocument (t : Option Text) : Json := (t.map Json.string).getD .null

/-- A result as a document. -/
def toDocument (r : BuildResult) : Json :=
  .object
    [("ok", .bool r.ok),
     ("error", .string r.error),
     ("exit_code", .int r.exitCode),
     ("project_dir", .string r.projectDir),
     ("out_dir", .string r.outDir),
     ("entry_points", listDocument r.entryPoints),
     ("rewritten_files", .int r.completedModules),
     ("stripped_files", .int r.strippedModules),
     ("placed_assets", listDocument r.placedAssets),
     ("skipped_assets", listDocument r.skippedAssets),
     ("entry_path", optionDocument r.entryPath),
     ("start_script", optionDocument r.startScript),
     ("automation_choice", optionDocument r.automationChoice),
     ("warnings", listDocument r.warnings),
     ("duration_ms", .int r.durationMs)]

/-! ## §2. From the outputs of the stages. -/

/-- The items that a summary lists under a key. -/
def listedIn (summary : Json.Members) (key : Text) : Except Failure Json := do
  let items ← ((Json.lookup? key summary).getD (.array [])).items
  return .array items

/-- The number that a summary gives for a key. -/
def countedIn (summary : Json.Members) (key : Text) : Except Failure Json := do
  let n ← ((Json.lookup? key summary).getD (.int 0)).integer
  return .int n

/-- The document of a successful result, from a document that holds the outputs of the stages. -/
def ofSummary (config : Config) (summary : Json) (warnings : List Text) (durationMs : Int) :
    Except Failure Json := do
  match summary with
  | .object outputs =>
    let entryPoints ← listedIn outputs "entry_points"
    let completed ← countedIn outputs "rewritten_files"
    let stripped ← countedIn outputs "stripped_files"
    let placed ← listedIn outputs "placed_assets"
    let skipped ← listedIn outputs "skipped_assets"
    let other (key : Text) : Json := (Json.lookup? key outputs).getD .null
    return .object
      [("ok", .bool true),
       ("error", .string []),
       ("exit_code", .int exitOk),
       ("project_dir", .string config.projectDir),
       ("out_dir", .string config.outDir),
       ("entry_points", entryPoints),
       ("rewritten_files", completed),
       ("stripped_files", stripped),
       ("placed_assets", placed),
       ("skipped_assets", skipped),
       ("entry_path", other "entry_path"),
       ("start_script", other "start_script"),
       ("automation_choice", other "automation_choice"),
       ("warnings", listDocument warnings),
       ("duration_ms", .int durationMs)]
  | other => .error (.noMember other.kindName)

end BuildResult

end ModuleBuild
