/-
  ModuleBuild.CommandLine.Options
  ───────────────────────────────
  **READING THE COMMAND LINE.**

  An option starts with a hyphen.  A long one may be cut short as long as one
  option is left that it can mean, and may have its value after an equals
  sign; a short one may have it directly behind.  A negative number is an
  argument, and so is what holds a blank.  Nothing after two hyphens is an
  option.  The program takes no arguments of its own, so any that are left
  are refused.

  What the words are is settled for all of them before the first takes
  effect.

  Main results:
    * `parse_nil` — an empty command line gives the defaults;
    * `overrides_default` — and overrides nothing.
-/
import ModuleBuild.Project.Config
import ModuleBuild.Text.Quoted

namespace ModuleBuild

/-! ## §1. The options. -/

/-- What an option was given. -/
inductive Setting (α : Type)
  /-- The option was not used. -/
  | unset
  /-- The option was used, and its value taken away: two hyphens in one word with an option are no
  value. -/
  | bare
  | value (a : α)
  deriving DecidableEq

/-- The value of an option, if it has one. -/
def Setting.value? {α : Type} : Setting α → Option α
  | .value a => some a
  | _ => none

/-- What the command line says. -/
structure Options where
  projectDir : Setting Text := .value "."
  outDir : Setting Text := .unset
  rootDir : Setting Text := .unset
  indexFileName : Setting Text := .unset
  automation : Setting Text := .unset
  noPrompt : Bool := false
  skipTypeCheck : Bool := false
  workers : Setting Int := .value 4
  noLogFile : Bool := false
  debug : Bool := false
  json : Bool := false
  deriving DecidableEq

namespace Options

/-- What the options change in the configuration; what is empty changes nothing. -/
def overrides (o : Options) : Overrides :=
  ⟨Config.given o.outDir.value?, Config.given o.rootDir.value?,
    Config.given o.indexFileName.value?⟩

theorem overrides_default : overrides {} = ⟨none, none, none⟩ := rfl

end Options

namespace CommandLine

/-- The options that there are. -/
inductive Switch
  | help
  | project
  | outDir
  | rootDir
  | indexFile
  | automation
  | noPrompt
  | skipTypeCheck
  | workers
  | noLogFile
  | debug
  | json
  deriving DecidableEq

/-- The spellings of the options, in their order. -/
def spellings : List (Text × Switch) :=
  [("-h", .help), ("--help", .help), ("-p", .project), ("--project", .project),
   ("--out-dir", .outDir), ("--root-dir", .rootDir), ("--index-file", .indexFile),
   ("--automation", .automation), ("--no-prompt", .noPrompt),
   ("--skip-typecheck", .skipTypeCheck), ("--workers", .workers), ("--no-log-file", .noLogFile),
   ("--debug", .debug), ("--json", .json)]

/-- The name of an option in messages: all of its spellings. -/
def Switch.name (s : Switch) : Text :=
  Text.joinWith "/" ((spellings.filter (·.2 = s)).map (·.1))

/-- Whether an option has a value. -/
def Switch.takesValue : Switch → Bool
  | .project | .outDir | .rootDir | .indexFile | .automation | .workers => true
  | _ => false

/-- The answers that may be given on the command line. -/
def automationChoices : List Text := ["b", "n", "s", "y"]

/-! ## §2. What is wrong with a command line. -/

/-- Why a command line is refused. -/
inductive Misuse
  /-- An option that is cut too short. -/
  | ambiguous (given : Text) (meanings : List Text)
  | missingValue (s : Switch)
  /-- A value given to an option that has none. -/
  | ignoredValue (s : Switch) (value : Text)
  | invalidInteger (s : Switch) (value : Text)
  | invalidChoice (s : Switch) (value : Text)
  /-- Words that are left. -/
  | unrecognized (words : List Text)
  deriving DecidableEq

/-- The words for a misuse. -/
def Misuse.message : Misuse → Text
  | .ambiguous given meanings =>
    Text.join ["ambiguous option: ", given, " could match ", Text.joinWith ", " meanings]
  | .missingValue s => Text.join ["argument ", s.name, ": expected one argument"]
  | .ignoredValue s value =>
    Text.join ["argument ", s.name, ": ignored explicit argument ", value.quoted]
  | .invalidInteger s value =>
    Text.join ["argument ", s.name, ": invalid int value: ", value.quoted]
  | .invalidChoice s value =>
    Text.join ["argument ", s.name, ": invalid choice: ", value.quoted, " (choose from ",
      Text.joinWith ", " (automationChoices.map Text.quoted), ")"]
  | .unrecognized words => Text.join ["unrecognized arguments: ", Text.joinWith " " words]

/-- What a command line asks for. -/
inductive Request
  | run (options : Options)
  | help
  | misuse (m : Misuse)
  deriving DecidableEq

/-! ## §3. What the words are. -/

/-- What a word of the command line is. -/
inductive Word
  | argument (t : Text)
  /-- Two hyphens. -/
  | separator
  /-- An option, with the value that stands in one word with it, behind an equals sign or directly;
  `long` says whether it is spelled with two hyphens. -/
  | option (s : Switch) (long : Bool) (attached : Option Text)
  | unknown (t : Text)
  deriving DecidableEq

/-- The hyphen. -/
def hyphen : CodePoint := CodePoint.ofChar '-'

/-- The equals sign. -/
def equals : CodePoint := CodePoint.ofChar '='

/-- Whether a word is a negative number: digits, or a full stop among them with digits behind; a
line feed may end it. -/
def isNegativeNumber (t : Text) : Bool :=
  let isDigit (c : CodePoint) : Bool := c.decimalValue?.isSome
  let isDigits (u : Text) : Bool := !u.isEmpty && u.all isDigit
  let body := t.drop 1
  let body := if body.getLast? = some CodePoint.lineFeed then body.dropLast else body
  t.head? = some hyphen &&
    (isDigits body ||
      (body.dropWhile isDigit).head? = some CodePoint.dot &&
        isDigits (body.dropWhile isDigit).tail)

/-- Whether a spelling has two hyphens. -/
def isLong (t : Text) : Bool := t.startsWith "--"

/-- A word cut at its first equals sign: what stands before it, and the value behind it. -/
def cutAtEquals (t : Text) : Text × Option Text :=
  match t.dropWhile (· ≠ equals) with
  | [] => (t, none)
  | _ :: value => (t.takeWhile (· ≠ equals), some value)

/-- The options that a word may mean, with their spellings and the value in the word. -/
def meanings (t : Text) : List (Text × Switch × Option Text) :=
  if isLong t then
    let cut := cutAtEquals t
    (spellings.filter (·.1.startsWith cut.1)).map fun s => (s.1, s.2, cut.2)
  else
    (spellings.filter (·.1 = t.take 2)).map fun s => (s.1, s.2, some (t.drop 2))

/-- What a word in front of any separator is. -/
def classify (t : Text) : Except Misuse Word :=
  if t.head? ≠ some hyphen then .ok (.argument t)
  else
    match spellings.lookup t with
    | some s => .ok (.option s (isLong t) none)
    | none =>
      if t.length = 1 then .ok (.argument t)
      else
        let cut := cutAtEquals t
        match cut.2, spellings.lookup cut.1 with
        | some attached, some s => .ok (.option s (isLong t) (some attached))
        | _, _ =>
          match meanings t with
          | [(_, s, attached)] => .ok (.option s (isLong t) attached)
          | [] =>
            if isNegativeNumber t || t.contains (CodePoint.ofChar ' ') then .ok (.argument t)
            else .ok (.unknown t)
          | several => .error (.ambiguous t (several.map (·.1)))

/-- What the words of a command line are. -/
def classifyAll : List Text → Except Misuse (List Word)
  | [] => .ok []
  | t :: ts =>
    if t = "--" then .ok (.separator :: ts.map .argument)
    else do
      let w ← classify t
      return w :: (← classifyAll ts)

/-! ## §4. What the options do. -/

/-- The word as it was written, for one that is no option. -/
def Word.text : Word → Text
  | .argument t => t
  | .separator => "--"
  | .unknown t => t
  | .option .. => []

/-- The effect of an option without value. -/
def setFlag (s : Switch) (o : Options) : Options :=
  match s with
  | .noPrompt => { o with noPrompt := true }
  | .skipTypeCheck => { o with skipTypeCheck := true }
  | .noLogFile => { o with noLogFile := true }
  | .debug => { o with debug := true }
  | .json => { o with json := true }
  | _ => o

/-- The effect of an option whose value was taken away. -/
def setBare (s : Switch) (o : Options) : Options :=
  match s with
  | .project => { o with projectDir := .bare }
  | .outDir => { o with outDir := .bare }
  | .rootDir => { o with rootDir := .bare }
  | .indexFile => { o with indexFileName := .bare }
  | .automation => { o with automation := .bare }
  | .workers => { o with workers := .bare }
  | _ => o

/-- The effect of an option with a value. -/
def setValue (s : Switch) (value : Text) (o : Options) : Except Misuse Options :=
  if value = "--" then .ok (setBare s o)
  else
    match s with
    | .project => .ok { o with projectDir := .value value }
    | .outDir => .ok { o with outDir := .value value }
    | .rootDir => .ok { o with rootDir := .value value }
    | .indexFile => .ok { o with indexFileName := .value value }
    | .automation =>
      if automationChoices.contains value then .ok { o with automation := .value value }
      else .error (.invalidChoice s value)
    | .workers =>
      match Text.toInt? value with
      | .ok n => .ok { o with workers := .value n }
      | .error _ => .error (.invalidInteger s value)
    | _ => .ok o

/-- What is wrong with the letters behind `-h`, if anything: they are short options too.  `next`
says whether an argument follows the word. -/
def helpFault (next : Bool) : Text → Option Misuse
  | [] => none
  | c :: rest =>
    if c = CodePoint.ofChar 'p' then
      if rest.isEmpty && !next then some (.missingValue .project) else none
    else if c = CodePoint.ofChar 'h' then helpFault next rest
    else some (.ignoredValue .help (c :: rest))

/-- Takes the words in order; `extras` are those left so far, the last first. -/
def take (o : Options) (extras : List Text) : List Word → Request
  | [] => if extras = [] then .run o else .misuse (.unrecognized extras.reverse)
  | .option s long attached :: ws =>
    if s.takesValue then
      match attached, ws with
      | some a, ws =>
        match setValue s a o with
        | .ok o => take o extras ws
        | .error m => .misuse m
      | none, .argument value :: ws =>
        match setValue s value o with
        | .ok o => take o extras ws
        | .error m => .misuse m
      | none, _ => .misuse (.missingValue s)
    else
      match attached with
      | none => if s = .help then .help else take (setFlag s o) extras ws
      | some a =>
        if s = .help ∧ long = false ∧ a ≠ [] then
          let next := match ws with
            | .argument _ :: _ => true
            | _ => false
          match helpFault next a with
          | none => .help
          | some m => .misuse m
        else .misuse (.ignoredValue s a)
  | w :: ws => take o (w.text :: extras) ws

/-- What a command line asks for. -/
def parse (argv : List Text) : Request :=
  match classifyAll argv with
  | .ok words => take {} [] words
  | .error m => .misuse m

theorem parse_nil : parse [] = .run {} := rfl

end CommandLine

end ModuleBuild
