/-
  ModuleBuild.Project.Document
  ────────────────────────────
  **THE DOCUMENTS OF A PROJECT.**

  A project is described by two files that hold one object each, written as
  JSON with comments.  An empty file stands for an empty object.

  Main results:
    * `membersOf_object` — an object is read as its members.
-/
import ModuleBuild.FileTree.Edit
import ModuleBuild.Json.Jsonc
import ModuleBuild.Json.Render
import ModuleBuild.Text.Lines

namespace ModuleBuild

/-- The members of a document read from a file, which must hold an object or nothing. -/
def Json.membersOf (path : Text) : Json → Except Failure Json.Members
  | .null => .ok []
  | .object members => .ok members
  | v => .error (.notObject path v.kindName)

theorem Json.membersOf_object (path : Text) (ms : Json.Members) :
    Json.membersOf path (.object ms) = .ok ms := rfl

namespace FileTree

/-- The members of the object that a file holds. -/
def readObject (t : FileTree) (path : Text) : Except Failure Json.Members := do
  let content ← t.readBytes path
  match Utf8.decodeUnmarked content with
  | .error fault => .error (.undecodable fault)
  | .ok text =>
    match Jsonc.decode (Text.unifyNewlines text) with
    | .error fault => .error (.malformed fault)
    | .ok v => v.membersOf path

end FileTree

namespace Json

/-- The value of a member; what is missing is null.  Only objects have members. -/
def member (v : Json) (key : Text) : Except Failure Json :=
  match v with
  | .object members => .ok ((lookup? key members).getD .null)
  | _ => .error (.noMember v.kindName)

/-- The value itself if it counts as set. -/
def orElse (v fallback : Json) : Json := if v.isTruthy then v else fallback

/-- The items of a value: of a list its own, of a string its characters, of an object its keys. -/
def items : Json → Except Failure (List Json)
  | .array vs => .ok vs
  | .string t => .ok (t.map fun c => .string [c])
  | .object members => .ok (members.map fun m => .string m.1)
  | v => .error (.noItems v.kindName)

/-- The integer of a value: a number without its fraction, or the number that a string writes. -/
def integer : Json → Except Failure Int
  | .bool b => .ok (if b then 1 else 0)
  | .int i => .ok i
  | .double (.finite negative m e) => .ok (Binary64.truncate negative m e)
  | .double (.infinity _) => .error .infiniteInteger
  | .double .nan => .error .undefinedInteger
  | .string t =>
    match Text.toInt? t with
    | .ok i => .ok i
    | .error fault => .error (.badInteger fault t)
  | v => .error (.noInteger v.kindName)

end Json

end ModuleBuild
