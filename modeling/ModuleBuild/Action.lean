/-
  ModuleBuild.Action
  ──────────────────
  **WHAT A BUILD DOES.**

  A build edits the file tree, and things happen that the outside can see:
  records are logged, stages begin and advance, a question is asked, a tool
  is run.  An action does both and may fail on the way; what it did before
  stays done.

  Main results:
    * `runOn_note` — noting an event changes nothing else;
    * `tree_lift` — an edit leaves the events as they are.
-/
import ModuleBuild.FileTree.Edit
import ModuleBuild.Log.Record
import ModuleBuild.Number.Binary64

namespace ModuleBuild

/-- A run of an outside tool: its words and the directory it ran in. -/
structure ToolRun where
  command : List Text
  workingDir : Text
  deriving DecidableEq

/-- What can be seen of a build from outside, the file tree aside. -/
inductive Event
  | logged (record : Record)
  | stageBegan (label : Text)
  /-- How far the stage is, in percent. -/
  | stageAdvanced (percent : Binary64)
  /-- The automation question was put, with these words on the terminal. -/
  | asked (words : Text)
  | toolRan (run : ToolRun)
  deriving DecidableEq

/-- The file tree, and what has happened so far. -/
structure World where
  tree : FileTree
  events : List Event

/-- A computation that edits the tree and makes things happen; it may fail half-way. -/
abbrev Action := ExceptT Failure (StateM World)

namespace Action

/-- What an action returns, and the world it leaves. -/
def runOn {α : Type} (a : Action α) (w : World) : Except Failure α × World :=
  StateT.run (ExceptT.run a) w

/-- An edit of the tree as an action. -/
def ofEdit {α : Type} (e : Edit α) : Action α := fun w =>
  let r := e.runOn w.tree
  (r.1, { w with tree := r.2 })

instance : MonadLift Edit Action := ⟨ofEdit⟩

/-- Notes an event. -/
def note (e : Event) : Action Unit := fun w => (.ok (), { w with events := w.events ++ [e] })

/-- Looks at the tree. -/
def view {α : Type} (f : FileTree → α) : Action α := Edit.view f

/-- Logs a message. -/
def log (level : Level) (logger message : Text) : Action Unit :=
  note (.logged ⟨level, logger, message⟩)

theorem runOn_note (e : Event) (w : World) :
    (note e).runOn w = (.ok (), { w with events := w.events ++ [e] }) := rfl

theorem tree_lift {α : Type} (e : Edit α) (w : World) :
    (ofEdit e).runOn w = ((e.runOn w.tree).1, { w with tree := (e.runOn w.tree).2 }) := rfl

end Action

end ModuleBuild
