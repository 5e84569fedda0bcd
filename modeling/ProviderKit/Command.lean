import ProviderKit.Failure
import ProviderKit.Surroundings

/-!
# Commands

External tools are run through a `Runner`: given a command and the disk that it finds, a runner
says how the command ended and what disk it left. What it records of that goes into a log. A call is
a command together with the disk that it found.
-/

namespace ProviderKit

/-- A command: a program, its arguments, the directory that it runs in, and the variables that are
set for it on top of those that every command starts with. -/
structure Command where
  program : Text
  args : List Text
  directory : Path
  overrides : Environment := []
deriving DecidableEq

/-- How a command ended: its status, and all that it printed. -/
structure CommandResult where
  status : Int
  output : Text
deriving DecidableEq

/-- A command that ended well. -/
def CommandResult.succeeded (r : CommandResult) : Bool := r.status == 0

/-- Anything that runs commands. -/
abbrev Runner := Command → Disk → Except Failure CommandResult × Disk

/-- What is recorded of a command, given the disk that it finds. -/
abbrev Records := Command → Disk → List Text

/-- A command that was run, and the disk that it found. -/
structure Call where
  command : Command
  disk : Disk

/-- The names in the directory that the command ran in. -/
def Call.names (call : Call) : List Text :=
  match call.disk.list call.command.directory with
  | .ok (_, names) => names
  | .error _ => []

end ProviderKit
