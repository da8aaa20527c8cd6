/-
  ModuleBuild.CommandLine.Program
  ───────────────────────────────
  **THE PROGRAM.**

  The program reads the command line, starts the log, builds, and tells how
  it went: to a person in a few lines, to a machine as a document.  It exits
  with 0 when the build succeeds, with 1 when it fails, with 2 when the
  command line is refused, and with 130 when it is interrupted.

  Main results:
    * `exitCode_of_help` — help is success;
    * `exitCode_of_misuse` — a refused command line has its own exit code.
-/
import ModuleBuild.CommandLine.Console
import ModuleBuild.CommandLine.Help
import ModuleBuild.Log.Journal
import ModuleBuild.Path.Expand

namespace ModuleBuild

/-! ## §1. What the program is given and leaves. -/

/-- What the program is run with. -/
structure Invocation where
  argv : List Text
  environment : Environment
  /-- Whether the output is a terminal. -/
  terminalOutput : Bool
  /-- Whether the input is a terminal. -/
  terminalInput : Bool
  input : Text
  tools : Toolchain
  /-- The time that log lines carry. -/
  time : Moment
  durationMs : Int

/-- What the program leaves behind. -/
structure Outcome where
  exitCode : Int
  output : Text
  /-- What was written to the error stream, log lines aside. -/
  errors : Text
  /-- The log lines on the console. -/
  console : Text
  toolRuns : List ToolRun
  tree : FileTree

namespace Program

/-- The part of the program that logs its start and end. -/
def logger : Text := "typebuild.interface.cli.app"

/-- The log file of a project, below the project directory. -/
def logPath (projectDir : Text) : Text := Path.join projectDir "build/logs/build.log"

/-- The tool runs among some events. -/
def toolRuns (es : List Event) : List ToolRun :=
  es.filterMap fun
    | .toolRan r => some r
    | _ => none

/-- The records among some events. -/
def records (es : List Event) : List Record :=
  es.filterMap fun
    | .logged r => some r
    | _ => none

/-! ## §2. How a build ends. -/

/-- How a build ended, seen from the command line: what is logged, what is written to the output
and to the error stream, and the exit code. -/
structure Ending where
  records : List Record
  output : Text
  errors : Text
  exitCode : Int

/-- How a build ended. -/
def endingOf (json : Bool) : Except Failure BuildResult → Ending
  | .error .interrupted =>
    ⟨[⟨.warning, logger, "Build interrupted by user."⟩], [], [], BuildResult.exitInterrupted⟩
  | .error failure =>
    ⟨[⟨.critical, logger, Text.join ["Build failed: ", failure.message]⟩], [], [],
      BuildResult.exitFailure⟩
  | .ok r =>
    if json then ⟨[], r.toDocument.render ++ [CodePoint.lineFeed], [], r.exitCode⟩
    else if r.ok then ⟨[], CommandLine.block (Console.summary r), [], r.exitCode⟩
    else ⟨[], [], CommandLine.block [Text.join ["ERROR: ", r.error]], r.exitCode⟩

/-! ## §3. The run. -/

/-- What the command line asks the build to do. -/
def requestOf (i : Invocation) (o : Options) (projectDir : Text) : BuildRequest :=
  { projectDir := projectDir
    overrides := o.overrides
    skipTypeCheck := o.skipTypeCheck
    prompt :=
      match o.automation.value? with
      | some answer => some ⟨[], some answer⟩
      | none => if o.noPrompt then none else some (Console.promptAt i.terminalInput i.input)
    durationMs := i.durationMs }

/-- Runs the build; how many workers it has makes no difference, but there must be a number. -/
def build (i : Invocation) (o : Options) (projectDir : Text) : Action BuildResult :=
  match o.workers with
  | .bare => throw (.noInteger "list")
  | _ => Build.run i.tools (requestOf i o projectDir)

/-- What the program leaves behind when the log runs: the build is run, what it logged is written,
and its end is told. -/
def runLogged (i : Invocation) (o : Options) (projectDir : Text) (w : LogWorld) : Outcome :=
  let (result, world) := (build i o projectDir).runOn ⟨w.tree, []⟩
  let ending := endingOf o.json result
  let written :=
    [⟨.info, logger, "===BUILD START==="⟩] ++ records world.events ++ ending.records ++
      [⟨.info, logger, "===BUILD END==="⟩]
  let w := written.foldl (fun w r => Journal.log r w) { w with tree := world.tree }
  let w := Journal.stop i.time w
  { exitCode := ending.exitCode
    output := Text.join
      [Console.showEvents i.terminalOutput (!o.json) [] world.events, ending.output,
        if o.noLogFile then [] else CommandLine.block ["You can view log in ./build/logs"]]
    errors := w.errors ++ ending.errors
    console := w.console
    toolRuns := toolRuns world.events
    tree := w.tree }

/-- Runs the build that the options ask for; a project directory that cannot be made out and a log
that cannot be started are failures of the program. -/
def runOptions (i : Invocation) (o : Options) (t : FileTree) :
    Except (Failure × FileTree) Outcome :=
  match Path.ofUser i.environment (FileTree.pathOf t.workingDir) o.projectDir.value? "." with
  | .error failure => .error (failure, t)
  | .ok projectDir =>
    let config : LogConfig :=
      { level := if o.debug then "DEBUG" else "INFO"
        file := if o.noLogFile then none else some (logPath projectDir) }
    match Journal.configure i.time config true ⟨t, .initial, [], []⟩ with
    | (.error failure, w) => .error (failure, w.tree)
    | (.ok (), w) => .ok (runLogged i o projectDir w)

/-- Runs the program. -/
def run (i : Invocation) (t : FileTree) : Except (Failure × FileTree) Outcome :=
  match CommandLine.parse i.argv with
  | .help => .ok ⟨0, CommandLine.help, [], [], [], t⟩
  | .misuse m => .ok ⟨CommandLine.exitMisuse, [], CommandLine.refusal m, [], [], t⟩
  | .run o => runOptions i o t

theorem exitCode_of_help {i : Invocation} (h : CommandLine.parse i.argv = .help) (t : FileTree) :
    (run i t).map Outcome.exitCode = .ok 0 := by
  simp [run, h, Except.map]

theorem exitCode_of_misuse {i : Invocation} {m : CommandLine.Misuse}
    (h : CommandLine.parse i.argv = .misuse m) (t : FileTree) :
    (run i t).map Outcome.exitCode = .ok 2 := by
  simp [run, h, Except.map, CommandLine.exitMisuse]

end Program

end ModuleBuild
