/-
  ModuleBuild.CommandLine.Help
  ────────────────────────────
  **WHAT THE PROGRAM SAYS ABOUT ITSELF.**

  The usage names every option; the help explains each.  Both are laid out
  for a terminal of eighty columns.

  Main results:
    * `help_eq` — the help starts with the usage.
-/
import ModuleBuild.CommandLine.Options

namespace ModuleBuild

namespace CommandLine

/-- Lines of text, each ended by a line feed. -/
def block (lines : List Text) : Text := lines.flatMap (· ++ [CodePoint.lineFeed])

/-- How the program is used. -/
def usage : Text :=
  block
    ["usage: typebuild [-h] [-p PROJECT_DIR] [--out-dir OUT_DIR]",
     "                 [--root-dir ROOT_DIR] [--index-file INDEX_FILE_NAME]",
     "                 [--automation \x7bb,n,s,y\x7d] [--no-prompt] [--skip-typecheck]",
     "                 [--workers WORKERS] [--no-log-file] [--debug] [--json]"]

/-- What the program does, and what its options do. -/
def details : Text :=
  block
    ["Compile a TypeScript ES module project with esbuild and turn the output into a",
     "directly runnable tree.",
     "",
     "options:",
     "  -h, --help            show this help message and exit",
     "  -p PROJECT_DIR, --project PROJECT_DIR",
     "                        Project directory containing tsconfig.json and",
     "                        package.json (default: current directory).",
     "  --out-dir OUT_DIR     Override compilerOptions.outDir.",
     "  --root-dir ROOT_DIR   Override compilerOptions.rootDir.",
     "  --index-file INDEX_FILE_NAME",
     "                        Override typebuild.indexFile (the entry file name to",
     "                        search for).",
     "  --automation \x7bb,n,s,y\x7d",
     "                        Answer the automation question non-interactively (y:",
     "                        prestart+build, s: prestart, b: build, n: none).",
     "  --no-prompt           Never ask the automation question during this run.",
     "  --skip-typecheck      Do not run 'tsc --noEmit' even when strict mode is",
     "                        enabled.",
     "  --workers WORKERS     Number of files rewritten concurrently (default: 4).",
     "  --no-log-file         Do not write build/logs/build.log.",
     "  --debug               Elevate logging verbosity to DEBUG.",
     "  --json                Print the build result as JSON."]

/-- The help of the program. -/
def help : Text := usage ++ [CodePoint.lineFeed] ++ details

theorem help_eq : help = usage ++ [CodePoint.lineFeed] ++ details := rfl

/-- What is said when the command line is refused. -/
def refusal (m : Misuse) : Text := usage ++ block [Text.join ["typebuild: error: ", m.message]]

/-- The exit code of a refused command line. -/
def exitMisuse : Int := 2

end CommandLine

end ModuleBuild
