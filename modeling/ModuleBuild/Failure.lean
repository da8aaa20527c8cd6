/-
  ModuleBuild.Failure
  ───────────────────
  **WHAT CAN GO WRONG.**

  Every failure of the library is a cause with its facts; the words are put
  together in one place.  Some failures are of the system (a file is missing,
  a name is taken), some say that a value is not what it should be; callers
  that go on after a failure choose by these two families.

  Main results:
    * `isValueFault_malformed`, `isSystemFault_system` — the families of the two commonest causes.
-/
import ModuleBuild.Json.Decode
import ModuleBuild.Text.Quoted
import ModuleBuild.Text.Utf8

namespace ModuleBuild

/-! ## §1. Faults of the system. -/

/-- Why the system refuses an operation on a path. -/
inductive SystemFault
  | noEntry
  | busy
  | exists
  | notDirectory
  | isDirectory
  | invalidName
  | nameTooLong
  | notEmpty
  | tooManyLinks
  deriving DecidableEq

/-- The number that the system gives to a fault. -/
def SystemFault.number : SystemFault → Nat
  | .noEntry => 2
  | .busy => 16
  | .exists => 17
  | .notDirectory => 20
  | .isDirectory => 21
  | .invalidName => 22
  | .nameTooLong => 36
  | .notEmpty => 39
  | .tooManyLinks => 40

/-- The words that the system has for a fault. -/
def SystemFault.words : SystemFault → Text
  | .noEntry => "No such file or directory"
  | .busy => "Device or resource busy"
  | .exists => "File exists"
  | .notDirectory => "Not a directory"
  | .isDirectory => "Is a directory"
  | .invalidName => "Invalid argument"
  | .nameTooLong => "File name too long"
  | .notEmpty => "Directory not empty"
  | .tooManyLinks => "Too many levels of symbolic links"

/-- The message of a fault, without a path. -/
def SystemFault.message (fault : SystemFault) : Text :=
  Text.join ["[Errno ", Text.ofNat fault.number, "] ", fault.words]

/-! ## §2. Failures. -/

/-- One entry of a directory that could not be copied: from where, to where, and why. -/
structure CopyFault where
  source : Text
  target : Text
  reason : Text
  deriving DecidableEq

/-- Why an operation did not return. -/
inductive Failure
  /-- The system refuses a path, or a move from a path to another. -/
  | system (fault : SystemFault) (path : Text) (target : Option Text)
  /-- A file cannot be copied to a path that ends with a slash and is no directory. -/
  | noDirectory (path : Text)
  /-- The directory from which relative paths start is gone. -/
  | noWorkingDirectory
  /-- A project has no configuration. -/
  | noConfiguration (project : Text)
  /-- A project has no manifest. -/
  | noManifest (path : Text)
  /-- Some entries of a directory could not be copied. -/
  | copy (faults : List CopyFault)
  /-- A file cannot be copied onto itself. -/
  | sameFile (source target : Text)
  /-- Bytes are not UTF-8. -/
  | undecodable (fault : Utf8.DecodeFault)
  /-- A text has no bytes. -/
  | unencodable (fault : Utf8.EncodeFault)
  /-- A path holds a NUL. -/
  | nullInPath
  /-- A text is not a document. -/
  | malformed (fault : Json.DecodeFault)
  /-- A document is not an object. -/
  | notObject (path kind : Text)
  /-- The configuration cannot be read. -/
  | badConfiguration (cause : Failure)
  /-- The manifest cannot be read. -/
  | badManifest (cause : Failure)
  /-- The manifest does not declare modules. -/
  | notModule
  /-- A value of some kind was asked for a member. -/
  | noMember (kind : Text)
  /-- A value of some kind was asked for its items. -/
  | noItems (kind : Text)
  /-- A value of some kind was asked for an integer. -/
  | noInteger (kind : Text)
  /-- A text was asked for an integer. -/
  | badInteger (fault : Text.IntegerFault) (written : Text)
  /-- An infinite double was asked for an integer. -/
  | infiniteInteger
  /-- A double without value was asked for an integer. -/
  | undefinedInteger
  /-- A log line has a layout that names no field. -/
  | badLogLayout (layout : Text)
  /-- A value is refused, in words of its own. -/
  | refused (words : Text)
  /-- A step was given up, in words of its own. -/
  | abandoned (words : Text)
  /-- The user interrupted the program. -/
  | interrupted

namespace Failure

/-! ## §3. Words. -/

/-- A copy fault between parentheses. -/
def showCopyFault (f : CopyFault) : Text :=
  Text.join ["(", f.source.quoted, ", ", f.target.quoted, ", ", f.reason.quoted, ")"]

/-- The words for a broken character. -/
def showDecodeFault (f : Utf8.DecodeFault) : Text :=
  Text.join ["'utf-8' codec can't decode ",
    if f.length = 1 then
      Text.join ["byte 0x", Text.hex 2 f.first.toNat, " in position ", Text.ofNat f.start]
    else
      Text.join ["bytes in position ", Text.ofNat f.start, "-",
        Text.ofNat (f.start + f.length - 1)],
    ": ",
    match f.cause with
    | .startByte => "invalid start byte"
    | .continuationByte => "invalid continuation byte"
    | .endOfData => "unexpected end of data"]

/-- The words for a run of surrogates. -/
def showEncodeFault (f : Utf8.EncodeFault) : Text :=
  Text.join ["'utf-8' codec can't encode ",
    if f.length = 1 then
      Text.join ["character '\\u", Text.hex 4 f.first.code, "' in position ", Text.ofNat f.start]
    else
      Text.join ["characters in position ", Text.ofNat f.start, "-",
        Text.ofNat (f.start + f.length - 1)],
    ": surrogates not allowed"]

/-- The message of a failure. -/
def message : Failure → Text
  | .system fault path none =>
    Text.join [fault.message, ": ", path.quoted]
  | .system fault path (some target) =>
    Text.join [fault.message, ": ", path.quoted, " -> ", target.quoted]
  | .noDirectory path => Text.join ["Directory does not exist: ", path]
  | .noWorkingDirectory => SystemFault.noEntry.message
  | .noConfiguration project =>
    Text.join ["tsconfig.json not found in '", project,
      "'. Run typebuild from the root directory of your project."]
  | .noManifest path =>
    Text.join ["package.json not found at '", path,
      "'. Run typebuild from the root directory of your project."]
  | .copy faults => Text.join ["[", Text.joinWith ", " (faults.map showCopyFault), "]"]
  | .sameFile source target =>
    Text.join [source.quoted, " and ", target.quoted, " are the same file"]
  | .undecodable fault => showDecodeFault fault
  | .unencodable fault => showEncodeFault fault
  | .nullInPath => "embedded null byte"
  | .malformed fault => fault.message
  | .notObject path kind =>
    Text.join ["Expected a JSON object in '", path, "', found ", kind, "."]
  | .badConfiguration cause => Text.join ["Invalid tsconfig.json: ", cause.message]
  | .badManifest cause => Text.join ["Invalid package.json: ", cause.message]
  | .notModule => "package.json must have 'type' set to 'module' for ES module support."
  | .noMember kind => Text.join ["'", kind, "' object has no attribute 'get'"]
  | .noItems kind => Text.join ["'", kind, "' object is not iterable"]
  | .noInteger kind =>
    Text.join ["int() argument must be a string, a bytes-like object or a real number, not '",
      kind, "'"]
  | .badInteger .malformed written =>
    Text.join ["invalid literal for int() with base 10: ", written.quoted.take 200]
  | .badInteger (.tooLong digits) _ => (Json.DecodeFault.longInteger digits).message
  | .infiniteInteger => "cannot convert float infinity to integer"
  | .undefinedInteger => "cannot convert float NaN to integer"
  | .badLogLayout layout =>
    Text.join ["Invalid format '", layout, "' for '%' style"]
  | .refused words => words
  | .abandoned words => words
  | .interrupted => []

/-! ## §4. Families. -/

/-- Whether a failure is of the system: a path that is missing, taken or of the wrong kind. -/
def isSystemFault : Failure → Bool
  | .system .. | .noDirectory _ | .noWorkingDirectory | .noConfiguration _ | .noManifest _
  | .copy _ | .sameFile .. => true
  | _ => false

/-- Whether a failure says that a value is not what it should be. -/
def isValueFault : Failure → Bool
  | .undecodable _ | .unencodable _ | .nullInPath | .malformed _ | .notObject ..
  | .badConfiguration _ | .badManifest _ | .notModule | .badInteger .. | .undefinedInteger
  | .badLogLayout _ | .refused _ => true
  | _ => false

theorem isSystemFault_system (fault : SystemFault) (path : Text) (target : Option Text) :
    isSystemFault (.system fault path target) = true := rfl

theorem isValueFault_malformed (fault : Json.DecodeFault) :
    isValueFault (.malformed fault) = true := rfl

end Failure

end ModuleBuild
