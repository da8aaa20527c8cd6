/-
  ModuleBuild.CommandLine.Console
  ───────────────────────────────
  **WHAT A BUILD LOOKS LIKE ON A TERMINAL.**

  A stage shows a bar that fills up.  On a terminal the bar is drawn anew on
  the same line each time the stage advances; elsewhere only the full bar is
  written.  The automation question is put where someone can answer it.

  Main results:
    * `question_of_not_interactive` — nobody is asked who cannot answer;
    * `clamp_nan` — a percentage without value counts as the whole.
-/
import ModuleBuild.Build.Run

namespace ModuleBuild

/-! ## §1. Comparing and rounding percentages. -/

namespace Binary64

/-- Whether a double is at least a natural number. -/
def atLeast (n : Nat) : Binary64 → Bool
  | .finite negative m e =>
    let q := magnitude m e
    if negative then n = 0 && m = 0 else n * q.2 ≤ q.1
  | .infinity negative => !negative
  | .nan => false

/-- Whether a double is less than zero. -/
def isNegative : Binary64 → Bool
  | .finite negative m _ => negative && m ≠ 0
  | .infinity negative => negative
  | .nan => false

/-- The natural number nearest to a double that is not negative, ties to the even one. -/
def nearestNat : Binary64 → Nat
  | .finite _ m e =>
    let q := magnitude m e
    roundHalfEven q.1 q.2
  | _ => 0

end Binary64

namespace Console

/-- A percentage between nothing and the whole. -/
def clamp (percent : Binary64) : Binary64 :=
  if percent = .nan || percent.atLeast 100 then Binary64.ofInt 100
  else if percent.isNegative then Binary64.zero
  else percent

theorem clamp_nan : clamp .nan = Binary64.ofInt 100 := rfl

/-! ## §2. Bars. -/

/-- The number of cells of a bar. -/
def barLength : Nat := 40

/-- A cell that is filled. -/
def fullCell : CodePoint := ⟨0x2588, by decide⟩

/-- A cell that is empty. -/
def emptyCell : CodePoint := ⟨0x2591, by decide⟩

/-- A bar of some cells, filled as far as the percentage says. -/
def bar (percent : Binary64) (label : Text) (cells : Nat) : Text :=
  let p := clamp percent
  let filled := (Binary64.timesNat cells (Binary64.overNat 100 p)).nearestNat
  Text.join [label, " [", List.replicate filled fullCell,
    List.replicate (cells - filled) emptyCell, "] ", Text.ofNat p.nearestNat, "%"]

/-- What is written when a stage advances. -/
def advance (terminal : Bool) (label : Text) (percent : Binary64) : Text :=
  let line := bar percent label barLength
  let done := percent.atLeast 100
  if terminal then
    CodePoint.carriageReturn :: line ++ if done then [CodePoint.lineFeed] else []
  else if done then line ++ [CodePoint.lineFeed]
  else []

/-! ## §3. The automation question. -/

/-- The automation question. -/
def question : Text :=
  "\nDo you want to run typebuild automatically? [Y] - All [S] - Prestart script [B - Default] " ++
    "- Build only [N] - None: "

/-- What comes back when a line is asked for. -/
inductive Reply
  | line (t : Text)
  | endOfText
  | interrupt
  deriving DecidableEq

/-- Puts the question where someone can answer it: the answer, and what was shown. -/
def ask (interactive : Bool) (reply : Reply) : Except Failure (Option Text × List Text) :=
  if !interactive then .ok (none, [])
  else
    match reply with
    | .line t => .ok (some t, [question])
    | .endOfText => .ok (none, [question])
    | .interrupt => .error .interrupted

theorem question_of_not_interactive (reply : Reply) : ask false reply = .ok (none, []) := rfl

/-- What reading a line from a text gives. -/
def readLine (input : Text) : Reply :=
  if input = [] then .endOfText else .line (input.takeWhile (· ≠ CodePoint.lineFeed))

/-- Who answers the question at a terminal, or where there is none. -/
def promptAt (terminal : Bool) (input : Text) : Prompt :=
  match ask terminal (readLine input) with
  | .ok (answer, shown) => ⟨Text.join shown, answer⟩
  | .error _ => ⟨[], none⟩

/-! ## §4. What a build writes. -/

/-- What is written when an event happens during the stage `label`, and the stage after it. -/
def showEvent (terminal bars : Bool) (label : Text) : Event → Text × Text
  | .stageBegan label' => ([], label')
  | .stageAdvanced percent => (if bars then advance terminal label percent else [], label)
  | .asked words => (words, label)
  | _ => ([], label)

/-- What is written while events happen. -/
def showEvents (terminal bars : Bool) (label : Text) : List Event → Text
  | [] => []
  | e :: es =>
    let r := showEvent terminal bars label e
    r.1 ++ showEvents terminal bars r.2 es

/-- The lines that tell a person how a build went. -/
def summary (r : BuildResult) : List Text :=
  [Text.join ["Build completed in ", Text.ofInt r.durationMs, " ms."],
   Text.join ["Output directory: ", r.outDir],
   Text.join ["TypeScript files compiled: ", Text.ofNat r.entryPoints.length],
   Text.join ["Modules with fixed imports: ", Text.ofNat r.completedModules],
   Text.join ["Modules with type imports removed: ", Text.ofNat r.strippedModules],
   Text.join ["Static files copied: ", Text.ofNat r.placedAssets.length],
   match r.startScript with
   | some script => Text.join ["Start script: ", script]
   | none => "Start script: not set (no index file found)"] ++
  if r.warnings = [] then []
  else [Text.join ["Warnings: ", Text.ofNat r.warnings.length]]

end Console

end ModuleBuild
