import ProviderKit.Archive.Fault
import ProviderKit.Problem
import ProviderKit.Yaml.Cursor

/-!
# Failures

Everything that can end a run early. A foreseen problem is reported to the user; the other failures
come as a surprise, and an interruption ends the program as the user asked.
-/

namespace ProviderKit

/-- What ends a run early. -/
inductive Failure where
  | problem (p : Problem)
  /-- A request to the disk that nobody expected to fail. -/
  | disk (fault : Disk.Fault)
  /-- A YAML text with a scalar that its tag does not allow. -/
  | yaml (fault : Yaml.Fault)
  /-- A JSON text with an integer that is too long. -/
  | longInteger
  /-- A text that is read, or a document that is written, has too many levels. -/
  | tooDeep
  /-- The output of a tool is not UTF-8. -/
  | undecodable (fault : Utf8.Fault)
  /-- A text to be written holds a lone surrogate. -/
  | unencodable
  /-- An archive that cannot be unpacked. -/
  | archive (fault : Archive.Fault)
  /-- A path leads around a loop of links. -/
  | linkLoop
  /-- There is no directory that temporary entries can be made in. -/
  | noTemporaryDirectory
  /-- A path begins with the home of a user who has none. -/
  | unknownHome
  /-- An argument or a variable that no command can be given. -/
  | badArgument
  /-- A command is given more time than can be waited for. -/
  | longTime
  /-- The size of the terminal is given in digits that stand in no number. -/
  | badSize
  /-- The user asked the program to stop. -/
  | interrupted

namespace Failure

/-- A failure in words. -/
def wording : Failure → Text
  | problem p => p.message
  | disk fault => fault.message
  | yaml _ => "A scalar of the schema is not what its tag says."
  | longInteger => "An integer has too many digits."
  | tooDeep => "maximum recursion depth exceeded"
  | undecodable fault => fault.message
  | unencodable => "A text cannot be written as UTF-8."
  | archive _ => "The archive cannot be unpacked."
  | linkLoop => "A path leads around a loop of links."
  | noTemporaryDirectory => "No directory for temporary entries can be used."
  | unknownHome => "The home of a user is not known."
  | badArgument => "No command can be given such an argument."
  | longTime => "No command can be given so much time."
  | badSize => "The size of the terminal is not a number."
  | interrupted => "The run was cancelled."

end Failure

/-- The outcome of a disk request, as the outcome of a run. -/
def orFail {α : Type} : Except Disk.Fault α → Except Failure α
  | .ok a => .ok a
  | .error fault => .error (.disk fault)

/-- The outcome of a step that fails with problems only, as the outcome of a run. -/
def orProblem {α : Type} : Except Problem α → Except Failure α
  | .ok a => .ok a
  | .error p => .error (.problem p)

end ProviderKit
