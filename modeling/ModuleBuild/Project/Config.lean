/-
  ModuleBuild.Project.Config
  ──────────────────────────
  **THE CONFIGURATION OF A PROJECT.**

  The options of a build stand in `tsconfig.json`: the directories in
  `compilerOptions`, the rest in a section of their own.  Whatever is missing
  has a default and is warned about.  The command line may override the
  directories and the name of the entry module.

  The directories that no walk enters always include `.git`, `node_modules`
  and the output directory, by its name and by its absolute path.

  Main results:
    * `mem_effectiveIgnored_outDirName`, `mem_effectiveIgnored_of_always` — what is always ignored;
    * `override_none` — no overrides, no change.
-/
import ModuleBuild.FileTree.Walk
import ModuleBuild.Project.Document
import ModuleBuild.Specifier
import ModuleBuild.Action

namespace ModuleBuild

/-! ## §1. The options of a build. -/

/-- What a build is told to do. -/
structure Config where
  /-- Where the configuration and the manifest lie. -/
  projectDir : Text
  /-- Where the sources lie. -/
  rootDir : Text
  /-- Where the compiler puts modules. -/
  outDir : Text
  /-- The output directory as configured. -/
  outDirName : Text
  ignoredDirs : NameSet
  /-- The name of the module to look for as the entry. -/
  indexFileName : Text
  /-- The sources whose imports are deleted. -/
  markerNames : List Text
  /-- What is copied as it is from the sources to the output. -/
  assetPaths : List Text
  /-- The entry module, where the project names it. -/
  indexPath : Option Text
  /-- Whether types are checked before compiling. -/
  strict : Bool
  deriving DecidableEq

/-- What the command line changes. -/
structure Overrides where
  outDir : Option Text
  rootDir : Option Text
  indexFileName : Option Text

namespace Config

/-- The output directory of a project that names none. -/
def defaultOutDir : Text := "./dist"

/-- The entry module of a project that names none. -/
def defaultIndex : Text := "index.js"

/-- The file that holds the configuration. -/
def fileName : Text := "tsconfig.json"

/-- A path without the references to the current directory in front. -/
def dropHere : Text → Text
  | c :: d :: rest =>
    if c = CodePoint.dot ∧ d = CodePoint.slash then dropHere rest else c :: d :: rest
  | t => t

/-- The name of an output directory: forward slashes, no `./` in front, no slash at the end. -/
def cleanOutDir (outDir : Text) : Text :=
  let name := (dropHere (Path.toForwardSlashes outDir)).dropEndWhile (· = CodePoint.slash)
  if name = [] then Path.here else name

/-- The directories that are ignored in the end. -/
def effectiveIgnored (configured : List Text) (outDirName : Text) (outDir : Option Text) :
    NameSet :=
  let named := NameSet.ofList ((configured.map Text.trim).filter (· ≠ []))
  let always := (named.insertMany alwaysIgnored).insert outDirName
  match outDir with
  | none => always
  | some dir => if dir = [] then always else always.insert (Path.normalize dir)

theorem mem_effectiveIgnored_outDirName (configured : List Text) (outDirName : Text)
    (outDir : Option Text) : outDirName ∈ effectiveIgnored configured outDirName outDir := by
  unfold effectiveIgnored
  cases outDir with
  | none => simp
  | some dir => by_cases h : dir = [] <;> simp [h]

theorem mem_effectiveIgnored_of_always {name : Text} (h : name ∈ alwaysIgnored)
    (configured : List Text) (outDirName : Text) (outDir : Option Text) :
    name ∈ effectiveIgnored configured outDirName outDir := by
  unfold effectiveIgnored
  cases outDir with
  | none => simp [h]
  | some dir => by_cases hd : dir = [] <;> simp [h, hd]

/-- The file name of an entry module: `.js` is added where it is missing. -/
def indexFile (name : Option Text) : Text :=
  let given := Text.trim (name.getD [])
  let name := if given = [] then defaultIndex else given
  if (Text.lower name).endsWith Specifier.moduleExtension then name
  else name ++ Specifier.moduleExtension

/-! ## §2. From the document. -/

/-- The texts that an option lists, and the warning if it is no list. -/
def textsOf (key : Text) : Json → List Text × List Text
  | .null => ([], [])
  | .string t => ([t], [])
  | .array vs => ((vs.map Json.plainText).filter fun t => !(Text.trim t).isEmpty, [])
  | v =>
    ([], [Text.join ["'", key, "' must be a list, received ", v.kindName, ". Ignoring it."]])

/-- A warning, if there is reason for it. -/
def warnIf (reason : Bool) (words : List Text) : List Text :=
  if reason then [Text.join words] else []

/-- The configuration that a document describes, and the warnings about what is missing. -/
def ofDocument (projectDir : Text) (document : Json) : Except Failure (Config × List Text) := do
  let compiler := (← document.member "compilerOptions").orElse (.object [])
  let section' ← document.member "typebuild"
  let options : Json := .object (section'.members?.getD [])
  let hasOptions := options.isTruthy
  let outDir ← compiler.member "outDir"
  let rootDir ← compiler.member "rootDir"
  let ignored := textsOf "ignoredDirs" (← options.member "ignoredDirs")
  let index ← options.member "indexFile"
  let markers := textsOf "typeFileNames" (← options.member "typeFileNames")
  let assets := textsOf "staticFiles" (← options.member "staticFiles")
  let indexPath ← options.member "indexPath"
  let strict ← compiler.member "strict"
  let rawOutDir := (outDir.orElse (.string defaultOutDir)).plainText
  let rawRootDir := (rootDir.orElse (.string Path.here)).plainText
  let outDirName := cleanOutDir rawOutDir
  let absoluteOutDir := Path.resolveAgainst projectDir rawOutDir
  let config : Config :=
    { projectDir := projectDir
      rootDir := Path.resolveAgainst projectDir rawRootDir
      outDir := absoluteOutDir
      outDirName := outDirName
      ignoredDirs := effectiveIgnored ignored.1 outDirName (some absoluteOutDir)
      indexFileName := indexFile (some (index.orElse (.string defaultIndex)).plainText)
      markerNames := markers.1
      assetPaths := assets.1
      indexPath :=
        if indexPath.isTruthy then
          some (Path.normalize (Path.toForwardSlashes indexPath.plainText))
        else none
      strict := strict.isTruthy }
  let warnings :=
    warnIf section'.members?.isNone
      ["No 'typebuild' options set in tsconfig.json. Using defaults (outDir: ./dist, ",
        "indexFile: index.js); type file imports and static files will be ignored."] ++
    warnIf (hasOptions && !outDir.isTruthy)
      ["No output directory in tsconfig.json. Defaulted to './dist'."] ++
    warnIf (hasOptions && !rootDir.isTruthy)
      ["No root directory in tsconfig.json. Defaulted to the project directory."] ++
    ignored.2 ++
    warnIf (hasOptions && ignored.1.isEmpty)
      ["No ignored directories in tsconfig.json. Defaulted to ['.git', 'node_modules', '",
        outDirName, "']."] ++
    warnIf (hasOptions && !index.isTruthy)
      ["No index name in tsconfig.json. Defaulted to 'index.js'."] ++
    markers.2 ++
    warnIf (hasOptions && markers.1.isEmpty)
      ["No type files in tsconfig.json. Type file imports will be ignored."] ++
    assets.2 ++
    warnIf (hasOptions && assets.1.isEmpty)
      ["No static files in tsconfig.json. Static files will be ignored."]
  return (config, warnings)

/-! ## §3. Overrides. -/

/-- An override that is given and not empty. -/
def given (value : Option Text) : Option Text := value.filter (· ≠ [])

/-- The configuration with another output directory, which is ignored in place of the former. -/
def withOutDir (config : Config) (dir : Text) : Config :=
  let name := cleanOutDir dir
  let absolute := Path.resolveAgainst config.projectDir dir
  let kept := (config.ignoredDirs.erase config.outDirName).erase config.outDir
  { config with
    outDir := absolute
    outDirName := name
    ignoredDirs := effectiveIgnored kept.toList name (some absolute) }

/-- The configuration with what the command line changes. -/
def override (config : Config) (o : Overrides) : Config :=
  let config := ((given o.outDir).map config.withOutDir).getD config
  let config :=
    match given o.rootDir with
    | none => config
    | some dir => { config with rootDir := Path.resolveAgainst config.projectDir dir }
  match given o.indexFileName with
  | none => config
  | some name => { config with indexFileName := indexFile (some name) }

theorem override_none (config : Config) : config.override ⟨none, none, none⟩ = config := rfl

/-! ## §4. From the project. -/

/-- The document that configures a project. -/
def readDocument (t : FileTree) (projectDir : Text) : Except Failure Json.Members :=
  let path := Path.join projectDir fileName
  if t.namesFile path then
    match t.readObject path with
    | .ok members => .ok members
    | .error failure => .error (if failure.isValueFault then .badConfiguration failure else failure)
  else .error (.noConfiguration projectDir)

/-- The configuration of the project in a directory, and its warnings. -/
def load (projectDir : Text) : Action (Config × List Text) := do
  let projectDir ← Action.view (·.absolute projectDir)
  let document ← Edit.ask (readDocument · projectDir)
  Edit.ask fun _ => ofDocument projectDir (.object document)

end Config

end ModuleBuild
