/-
  ModuleBuild.Log.Journal
  ───────────────────────
  **THE BUILD LOG.**

  Records are queued and written when the log is stopped, so that nothing is
  written between the lines of a build's own output.  A log has sinks: the
  console, and a file that is rotated when a line would fill it.  A sink that
  cannot be opened is reported and left out; a log without sinks is not
  started.

  The file stays open while the log runs, so a file that takes its place
  meanwhile gets no lines.  A record whose line cannot be made or written is
  left out.  A rotation that fails half-way leaves the file closed, and it is
  opened again for the next record.

  Starting a log that runs is a no-op unless it is forced; then the running
  one is stopped first.

  Main results:
    * `stop_journal` — a stopped log has no listener, no handler, and nothing queued;
    * `configure_running` — a running log is kept unless another is forced on it.
-/
import ModuleBuild.FileTree.Edit
import ModuleBuild.Log.Layout
import ModuleBuild.Log.Moment

namespace ModuleBuild

/-! ## §1. What a log is made of. -/

/-- How a log is to be kept. -/
structure LogConfig where
  level : Text := "INFO"
  console : Bool := true
  file : Option Text := none
  /-- The size at which the file is rotated; zero or less is never. -/
  maxBytes : Int := 1024 * 1024
  /-- How many rotated files are kept. -/
  backupCount : Int := 3
  consoleLayout : Text := Layout.console
  fileLayout : Text := Layout.file
  dateLayout : Text := Moment.fileLayout

/-- A log file. -/
structure LogFile where
  path : Text
  layout : Text
  dateLayout : Text
  maxBytes : Int
  backupCount : Int

/-- Where lines go. -/
inductive Sink
  | console (layout : Text)
  | file (f : LogFile)

/-- What takes records from the queue: the sinks, and the level from which they take them. -/
structure Listener where
  level : Nat
  sinks : List Sink

/-- The state of the log. -/
structure Journal where
  /-- The level from which records are queued. -/
  level : Nat
  configured : Bool
  listener : Option Listener
  /-- How many handlers put records on the queue. -/
  handlers : Nat
  /-- The records on the queue, the oldest first. -/
  queue : List Record

/-- The log before it is first started. -/
def Journal.initial : Journal := ⟨30, false, none, 0, []⟩

/-- What a log works on: the tree that holds its files, and what it has written to the console and
to the error stream. -/
structure LogWorld where
  tree : FileTree
  journal : Journal
  console : Text
  errors : Text

namespace Journal

/-! ## §2. Writing lines. -/

/-- A file name with the number of a rotated file. -/
def numbered (path : Text) (n : Nat) : Text := Text.join [path, ".", Text.ofNat n]

/-- Moves what lies at a path away, in place of the file at another. -/
def shift (source dest : Text) : Edit Unit := do
  if (← get).pathExists source then
    if (← get).pathExists dest then Edit.change (·.removeFile dest)
    Edit.change (·.move source dest)

/-- Moves each kept file to the next number, the highest first. -/
def shiftAll (path : Text) : Nat → Edit Unit
  | 0 => return ()
  | n + 1 => do
    shift (numbered path (n + 1)) (numbered path (n + 2))
    shiftAll path n

/-- Rotates a log file: the file becomes number one, and one is opened in its place.  A file in the
way of number one is removed even if there is nothing to be moved. -/
def rotate (f : LogFile) : Edit Unit := do
  modify FileTree.close
  if 0 < f.backupCount then
    shiftAll f.path (f.backupCount.toNat - 1)
    if (← get).pathExists (numbered f.path 1) then
      Edit.change (·.removeFile (numbered f.path 1))
    if (← get).pathExists f.path then Edit.change (·.move f.path (numbered f.path 1))
  Edit.change (·.openToAppend f.path)

/-- Whether a line would fill a log file: its characters and the bytes of the file reach the size.
What is no file is never rotated. -/
def wouldFill (f : LogFile) (t : FileTree) (line : Text) : Bool :=
  (t.namesFile f.path || !t.pathExists f.path) && 0 < f.maxBytes &&
    f.maxBytes ≤ (t.openContent.length + line.length : Nat)

/-- Writes a record to a log file, which is opened if it is closed. -/
def writeTo (f : LogFile) (now : Moment) (r : Record) : Edit Unit := do
  if (← get).openFile = .closed then Edit.change (·.openToAppend f.path)
  match Layout.fill? f.layout (now.format? f.dateLayout) r with
  | none => return ()
  | some text =>
    let line := text ++ [CodePoint.lineFeed]
    if wouldFill f (← get) line then rotate f
    match Utf8.encode line with
    | .ok bytes => modify (·.append bytes)
    | .error _ => return ()

/-- Writes a record to a sink; what goes wrong is left at that. -/
def emit (now : Moment) (r : Record) (w : LogWorld) : Sink → LogWorld
  | .console layout =>
    match Layout.fill? layout (now.format Moment.plainLayout) r with
    | none => w
    | some text => { w with console := w.console ++ text ++ [CodePoint.lineFeed] }
  | .file f => { w with tree := ((writeTo f now r).runOn w.tree).2 }

/-- Writes a record to the sinks of a listener, if it is serious enough. -/
def deliver (now : Moment) (l : Listener) (w : LogWorld) (r : Record) : LogWorld :=
  if l.level ≤ r.level.number then l.sinks.foldl (emit now r) w else w

/-! ## §3. Starting, logging, stopping. -/

/-- Puts a record on the queue, if the log runs and the record is serious enough. -/
def log (r : Record) (w : LogWorld) : LogWorld :=
  if 0 < w.journal.handlers ∧ w.journal.level ≤ r.level.number then
    { w with journal := { w.journal with queue := w.journal.queue ++ [r] } }
  else w

/-- Stops the log: what is queued is written, and the file is closed. -/
def stop (now : Moment) (w : LogWorld) : LogWorld :=
  let w :=
    match w.journal.listener with
    | none => w
    | some l => w.journal.queue.foldl (deliver now l) w
  { w with
    tree := w.tree.close
    journal :=
      { w.journal with configured := false, listener := none, handlers := 0, queue := [] } }

/-- Reports on the error stream that a log file cannot be opened. -/
def refuse (path words fault : Text) (w : LogWorld) : LogWorld :=
  { w with
    errors := w.errors ++
      Text.join ["WARNING: Cannot ", words, " '", path, "': ", fault, [CodePoint.lineFeed]] }

/-- Opens a log file, and makes its directory. -/
def openFile (c : LogConfig) (path : Text) (w : LogWorld) :
    Except Failure (Option LogFile) × LogWorld :=
  let absolute := w.tree.absolute path
  let made := (Edit.tryMakeDirectories (Path.dirName absolute)).runOn w.tree
  let w := { w with tree := made.2 }
  match made.1 with
  | .error failure => (.error failure, w)
  | .ok (some fault) => (.ok none, refuse path "create build log directory for" fault w)
  | .ok none =>
    match w.tree.openToAppend absolute with
    | .ok t =>
      (.ok (some ⟨absolute, Layout.orPlain c.fileLayout,
        if c.dateLayout = [] then Moment.plainLayout else c.dateLayout, c.maxBytes,
        c.backupCount⟩), { w with tree := t })
    | .error failure =>
      if failure.isSystemFault then
        (.ok none, refuse path "open build log at" failure.message w)
      else (.error failure, w)

/-- Refuses a layout that names no field. -/
def checkLayout (layout : Text) : Except Failure Unit :=
  if Layout.namesField (Layout.orPlain layout) then .ok () else .error (.badLogLayout layout)

/-- Puts a listener on the queue, unless it would have no sinks. -/
def start (level : Nat) (sinks : List Sink) (w : LogWorld) : LogWorld :=
  if sinks.isEmpty then w
  else
    { w with
      journal := { w.journal with
        configured := true
        listener := some ⟨level, sinks⟩
        handlers := w.journal.handlers + 1 } }

/-- The sinks of a log. -/
def openSinks (c : LogConfig) (w : LogWorld) : Except Failure (List Sink) × LogWorld :=
  let layout := Layout.orPlain c.consoleLayout
  let console := if c.console then [Sink.console layout] else []
  match if c.console then checkLayout layout else .ok () with
  | .error failure => (.error failure, w)
  | .ok () =>
    match c.file.filter (· ≠ []) with
    | none => (.ok console, w)
    | some path =>
      match checkLayout c.fileLayout with
      | .error failure => (.error failure, w)
      | .ok () =>
        let (file, w) := openFile c path w
        (file.map fun f => console ++ (f.map Sink.file).toList, w)

/-- Starts a log. -/
def configure (now : Moment) (c : LogConfig) (force : Bool) (w : LogWorld) :
    Except Failure Unit × LogWorld :=
  if w.journal.configured && !force then (.ok (), w)
  else
    let level := (Level.ofText c.level).number
    match openSinks c (stop now { w with journal := { w.journal with level := level } }) with
    | (.error failure, w) => (.error failure, w)
    | (.ok sinks, w) => (.ok (), start level sinks w)

/-- A stopped log has no listener, no handler, and nothing queued. -/
theorem stop_journal (now : Moment) (w : LogWorld) :
    (stop now w).journal.configured = false ∧ (stop now w).journal.listener = none ∧
      (stop now w).journal.handlers = 0 ∧ (stop now w).journal.queue = [] :=
  ⟨rfl, rfl, rfl, rfl⟩

/-- A running log is kept unless another is forced on it. -/
theorem configure_running {w : LogWorld} (h : w.journal.configured = true) (now : Moment)
    (c : LogConfig) : configure now c false w = (.ok (), w) := by
  simp [configure, h]

end Journal

end ModuleBuild
