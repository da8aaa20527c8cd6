/-
  ModuleBuild.CommandLine.Crash
  ─────────────────────────────
  **WHEN THE PROGRAM ITSELF FAILS.**

  A failure that nothing handles ends the program with a report on the error
  stream.  The report names the kind of the failure and gives its message.

  Main results:
    * `describe_of_empty` — a failure without message is told by its kind alone.
-/
import ModuleBuild.CommandLine.Program

namespace ModuleBuild

namespace SystemFault

/-- The kind of a system fault, as reports name it. -/
def kind : SystemFault → Text
  | .noEntry => "FileNotFoundError"
  | .exists => "FileExistsError"
  | .notDirectory => "NotADirectoryError"
  | .isDirectory => "IsADirectoryError"
  | .busy | .invalidName | .nameTooLong | .notEmpty | .tooManyLinks => "OSError"

end SystemFault

namespace Failure

/-- The kind of a failure, as reports name it. -/
def kind : Failure → Text
  | .system fault .. => fault.kind
  | .noDirectory _ | .noWorkingDirectory | .noConfiguration _ | .noManifest _ => "FileNotFoundError"
  | .copy _ => "Error"
  | .sameFile .. => "SameFileError"
  | .undecodable _ => "UnicodeDecodeError"
  | .unencodable _ => "UnicodeEncodeError"
  | .malformed (.malformed ..) => "JSONDecodeError"
  | .malformed (.longInteger _) => "ValueError"
  | .nullInPath | .notObject .. | .badConfiguration _ | .badManifest _ | .notModule
  | .badInteger .. | .undefinedInteger | .badLogLayout _ | .refused _ => "ValueError"
  | .noMember _ => "AttributeError"
  | .noItems _ | .noInteger _ => "TypeError"
  | .infiniteInteger => "OverflowError"
  | .abandoned _ => "RuntimeError"
  | .interrupted => "KeyboardInterrupt"

end Failure

namespace Crash

/-- The part of the program that logs its own failures. -/
def logger : Text := "typebuild.supervisor"

/-- The line that describes a failure. -/
def describe (kind message : Text) : Text :=
  CommandLine.block [if message = [] then kind else Text.join [kind, ": ", message]]

theorem describe_of_empty (kind : Text) : describe kind [] = CommandLine.block [kind] := rfl

/-- What is logged about a failure. -/
def record (kind message : Text) : Record :=
  ⟨.critical, logger,
    Text.join ["FATAL EXCEPTION DETECTED: ", message, [CodePoint.lineFeed],
      describe kind message]⟩

/-- The report on a failure. -/
def report (kind message : Text) : Text :=
  let rule : Text := List.replicate 80 (CodePoint.ofChar '=')
  CommandLine.block ["", rule, "CRITICAL ERROR (TYPEBUILD)", rule, describe kind message]

/-- Runs the program; a failure that nothing handles is reported. -/
def supervise (i : Invocation) (t : FileTree) : Outcome :=
  match Program.run i t with
  | .ok outcome => outcome
  | .error (failure, t) =>
    ⟨BuildResult.exitFailure, [], report failure.kind failure.message, [], [], t⟩

end Crash

end ModuleBuild
