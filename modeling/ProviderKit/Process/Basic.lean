import ProviderKit.Command
import ProviderKit.Number.Shortest

/-!
# Processes

A machine starts processes, one at a time, and each one runs to its end: it exits with a status, a
signal kills it, or it is stopped when its time is up. What a process writes to its two output
streams ends up in one sequence of bytes.
-/

namespace ProviderKit

/-- A bound on the time that a process may take. -/
structure TimeLimit where
  /-- The number of seconds, as it is shown. -/
  text : Text
  nanoseconds : Nat
deriving DecidableEq

namespace TimeLimit

/-- The nanoseconds of a second. -/
def nanosecondsPerSecond : Nat := 1000000000

/-- The longest time that a machine can wait for: as many milliseconds as 31 bits count. -/
def longest : Nat := (Nat.pow 2 31 - 1) * 1000000

/-- A machine can wait for so long. -/
def isBounded (limit : TimeLimit) : Bool := limit.nanoseconds ≤ longest

/-- A limit of a whole number of seconds. A number beyond all that can be measured counts as a long
time whatever its sign. -/
def ofInt (seconds : Int) : TimeLimit :=
  let counted := match Binary64.ofInt seconds with
    | .infinity _ => seconds.natAbs
    | .finite .. | .nan => seconds.toNat
  ⟨Text.ofInt seconds, counted * nanosecondsPerSecond⟩

/-- A limit of any number of seconds. -/
def ofNumber (seconds : Binary64) : TimeLimit :=
  let nanoseconds := match seconds with
    | .finite false mantissa exponent =>
      let (num, den) := Binary64.toFraction mantissa exponent
      num * nanosecondsPerSecond / den
    | .infinity false => longest + 1
    | .finite true .. | .infinity true | .nan => 0
  ⟨seconds.text "inf" "nan", nanoseconds⟩

end TimeLimit

/-- A process about to start. -/
structure Process where
  /-- The file that is started. If this is a bare name, `candidates` says where to look for it. -/
  executable : Text
  /-- The files that are tried in turn. -/
  candidates : List Text
  arguments : List Text
  directory : Path
  environment : Environment
deriving DecidableEq

/-- How a process ends. -/
inductive Ending where
  /-- The process exits with a status. -/
  | exited (status : Nat) (output : Bytes)
  /-- A signal kills the process. -/
  | killed (signal : Nat) (output : Bytes)
  /-- The process was stopped when its time was up. -/
  | unfinished (limit : TimeLimit)
  /-- The process was stopped at once, since no machine can wait as long as its time lasts. -/
  | unbounded
  /-- The process could not be started because of what is at a path. -/
  | notStarted (reason : Disk.Reason) (path : Text)
deriving DecidableEq

/-- Anything that runs processes. -/
abbrev Machine := Process → Option TimeLimit → Disk → Ending × Disk

end ProviderKit
