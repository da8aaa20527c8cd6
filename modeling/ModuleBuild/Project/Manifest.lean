/-
  ModuleBuild.Project.Manifest
  ────────────────────────────
  **THE MANIFEST OF A PROJECT.**

  The manifest, `package.json`, is one object.  A build changes two of its
  sections: the scripts, and a section of its own.  A section that is missing
  or no object becomes an empty object when it is first needed.

  The manifest is changed in transactions: loaded, changed, and saved whole
  if the change did not fail.

  Main results:
    * `sectionOf_setIn_self` — setting a key of a section is seen there;
    * `lookup_setIn_of_ne` — and nowhere else.
-/
import ModuleBuild.Action
import ModuleBuild.Project.Document

namespace ModuleBuild

/-- A manifest and the path it was loaded from. -/
structure Manifest where
  path : Text
  members : Json.Members

namespace Manifest

/-! ## §1. Sections. -/

/-- The file that holds the manifest. -/
def fileName : Text := "package.json"

/-- The section that holds the scripts. -/
def scriptsKey : Text := "scripts"

/-- The section that the build keeps for itself. -/
def ownKey : Text := "typebuild"

/-- The members of a section; one that is missing or no object has none. -/
def sectionOf (m : Manifest) (key : Text) : Json.Members :=
  ((Json.lookup? key m.members).bind Json.members?).getD []

/-- The manifest with a section present. -/
def ensureSection (m : Manifest) (key : Text) : Manifest :=
  match (Json.lookup? key m.members).bind Json.members? with
  | some _ => m
  | none => { m with members := Json.setMember key (.object []) m.members }

/-- The manifest with a key of a section set. -/
def setIn (m : Manifest) (section' key : Text) (value : Json) : Manifest :=
  { m with
    members :=
      Json.setMember section' (.object (Json.setMember key value (m.sectionOf section')))
        m.members }

theorem sectionOf_setIn_self (m : Manifest) (section' key : Text) (value : Json) :
    (m.setIn section' key value).sectionOf section'
      = Json.setMember key value (m.sectionOf section') := by
  simp [sectionOf, setIn, Json.members?]

theorem lookup_setIn_of_ne {section' k : Text} (h : k ≠ section') (m : Manifest) (key : Text)
    (value : Json) :
    Json.lookup? k (m.setIn section' key value).members = Json.lookup? k m.members := by
  simp [setIn, Json.lookup_setMember_of_ne h]

/-- Whether the automation question has been answered. -/
def askedUser (m : Manifest) : Bool :=
  ((Json.lookup? "askedUser" (m.sectionOf ownKey)).getD .null).isTruthy

/-- Whether the automation question is still to be asked. -/
def needsPrompt (m : Manifest) : Bool := !m.askedUser

/-- Whether the project declares its files to be modules. -/
def isModule (m : Manifest) : Bool := Json.lookup? "type" m.members = some (.string "module")

/-! ## §2. Loading and saving. -/

/-- The path of a project's manifest; the project directory is absolute. -/
def pathIn (projectDir : Text) : Text := Path.join projectDir fileName

/-- The manifest in a file. -/
def load (t : FileTree) (path : Text) : Except Failure Manifest :=
  if t.namesFile path then
    match t.readObject path with
    | .ok members => .ok ⟨path, members⟩
    | .error failure => .error (if failure.isValueFault then .badManifest failure else failure)
  else .error (.noManifest path)

/-- The manifest in a file, which must declare modules. -/
def loadModule (t : FileTree) (path : Text) : Except Failure Manifest := do
  let m ← load t path
  if m.isModule then .ok m else .error .notModule

/-- The written form of a manifest. -/
def content (m : Manifest) : Text := Json.render (.object m.members) ++ [CodePoint.lineFeed]

/-- The part of the program that logs what is done with manifests. -/
def logger : Text := "typebuild.domain.manifest"

/-- Writes a manifest to the path it was loaded from. -/
def save (m : Manifest) : Action Unit := do
  Edit.change (·.replaceText m.path m.content)
  Action.log .debug logger (Text.join ["Manifest saved to ", m.path])

/-- Loads a manifest, changes it, and saves it; a change that fails is not saved. -/
def transaction {α : Type} (path : Text) (change : Manifest → Action (Manifest × α)) :
    Action α := do
  let m ← Edit.ask (load · path)
  let r ← change m
  save r.1
  return r.2

end Manifest

end ModuleBuild
