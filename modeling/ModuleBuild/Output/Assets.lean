/-
  ModuleBuild.Output.Assets
  ─────────────────────────
  **PLACING STATIC ASSETS.**

  An asset is a file or directory of the sources that is copied to the same
  place in the output.  What lies there is removed first, so nothing stale is
  left.  Skipped are paths that do not lead into the sources, that are
  missing, or that contain the output itself.

  Main results:
    * `judge_absolute` — an absolute path is no asset;
    * `Report.skip_placed`, `Report.place_skipped` — each asset is reported on one side.
-/
import ModuleBuild.Action
import ModuleBuild.FileTree.RealPath

namespace ModuleBuild

namespace Assets

/-- The part of the program that logs what is placed. -/
def logger : Text := "typebuild.core.pipeline.stages.assets"

/-- What became of some assets: those copied, those whose destination was taken before, and those
left out. -/
structure Report where
  placed : List Text
  replaced : List Text
  skipped : List Text
  deriving DecidableEq

namespace Report

/-- The report on no assets. -/
def empty : Report := ⟨[], [], []⟩

/-- The report with one more asset copied. -/
def place (r : Report) (asset : Text) : Report := { r with placed := r.placed ++ [asset] }

/-- The report with one more asset left out. -/
def skip (r : Report) (asset : Text) : Report := { r with skipped := r.skipped ++ [asset] }

/-- The report with one more destination taken. -/
def replace (r : Report) (asset : Text) : Report := { r with replaced := r.replaced ++ [asset] }

theorem skip_placed (r : Report) (asset : Text) : (r.skip asset).placed = r.placed := rfl

theorem place_skipped (r : Report) (asset : Text) : (r.place asset).skipped = r.skipped := rfl

end Report

/-- The place of an asset below a directory. -/
def pathIn (dir asset : Text) : Text := Path.normalize (Path.join dir asset)

/-- What speaks for or against copying an asset. -/
inductive Verdict
  | outside
  | missing
  | containsOutput
  | allowed
  deriving DecidableEq

/-- Judges an asset. -/
def judge (t : FileTree) (source output asset : Text) : Except Failure Verdict := do
  let from' := pathIn source asset
  if Path.isAbsolute asset then return .outside
  if !(← t.isWithin from' source) || from' = Path.normalize source then return .outside
  if !t.pathExists from' then return .missing
  if ← t.isWithin output from' then return .containsOutput
  return .allowed

theorem judge_absolute {asset : Text} (h : Path.isAbsolute asset = true) (t : FileTree)
    (source output : Text) : judge t source output asset = .ok .outside := by
  simp [judge, h, pure, Except.pure]

/-- The warning about an asset that is left out. -/
def warningFor (source output asset : Text) : Verdict → Option Text
  | .outside =>
    some (Text.join ["Static file ", asset, " is not a path inside ", source, "! Skipping."])
  | .missing =>
    some (Text.join ["Static file ", pathIn source asset, " does not exist! Skipping."])
  | .containsOutput =>
    some (Text.join
      ["Static file ", asset, " contains the output directory ", output, "! Skipping."])
  | .allowed => none

/-- Runs a step; a refusal of the system is its result. -/
def attempt {α : Type} (step : Action α) : Action (Except Failure α) := do
  try pure (.ok (← step))
  catch failure => if failure.isSystemFault then pure (.error failure) else throw failure

/-- Removes what lies at a destination; tells whether there was something. -/
def clear (dest : Text) : Action Bool := do
  if ← Action.view (·.pathOccupied dest) then
    Edit.removePath dest
    Action.log .info logger (Text.join ["Removed existing static file: ", dest])
    return true
  return false

/-- Leaves an asset out because the system refused to copy it. -/
def refuse (source asset : Text) (r : Report) (failure : Failure) : Action Report := do
  Action.log .error logger
    (Text.join ["Failed to copy static file ", pathIn source asset, ": ", failure.message])
  return r.skip asset

/-- Copies an asset, in place of what lies at its destination. -/
def copy (source output asset : Text) (r : Report) : Action Report := do
  let from' := pathIn source asset
  let to' := pathIn output asset
  match ← attempt (clear to') with
  | .error failure => refuse source asset r failure
  | .ok removed =>
    let r := if removed then r.replace asset else r
    match ← attempt (Edit.copyPath from' to') with
    | .error failure => refuse source asset r failure
    | .ok () =>
      Action.log .info logger (Text.join ["Copied static file: ", from', " to ", to'])
      return r.place asset

/-- Places one asset. -/
def placeOne (source output asset : Text) (r : Report) : Action Report := do
  let verdict ← Edit.ask (judge · source output asset)
  match warningFor source output asset verdict with
  | some words =>
    Action.log .warning logger words
    return r.skip asset
  | none => copy source output asset r

/-- Places the remaining assets of `total`, of which `done` are done. -/
def placeFrom (source output : Text) (total : Nat) (done : Nat) (r : Report) :
    List Text → Action Report
  | [] => return r
  | asset :: assets => do
    let r ← placeOne source output asset r
    Action.note (.stageAdvanced (Binary64.percentOf (done + 1) total))
    placeFrom source output total (done + 1) r assets

/-- Places assets, in order. -/
def place (assets : List Text) (source output : Text) : Action Report := do
  if assets = [] then
    Action.log .warning logger "No static files specified. Skipping static file placement."
    return .empty
  let r ← placeFrom source output assets.length 0 .empty assets
  Action.log .info logger "Done copying static files!"
  return r

end Assets

end ModuleBuild
