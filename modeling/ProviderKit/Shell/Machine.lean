import ProviderKit.Process.Basic
import ProviderKit.Shell.Run

/-!
# A machine of scripts

A machine whose processes are run by the shell above: the disk says what an executable file is, and
a script does what its statements say. A process that never ends is stopped when its time is up.
-/

namespace ProviderKit.Shell

/-- The steps that one process may take. -/
def stepLimit : Nat := 1000000

/-- The number of the signal that ends a process without asking it. -/
def killSignal : Nat := 9

/-- The number of the process before the first one. -/
def firstProcess : Nat := 1

/-- How a process ends that its machine has come to a stop with. -/
def endingOf (limit : Option TimeLimit) (output : Bytes) : Except Stop Outcome → Ending
  | .ok (.exited status) => .exited status output
  | .ok (.killed signal) => .killed signal output
  | .error _ =>
    match limit with
    | some limit => .unfinished limit
    | none => .killed killSignal output

/-- The output of a process stays open until the processes beside it have ended, too. -/
def awaitJobs (outcome : Outcome) : Action Outcome := do
  let s ← get
  sleep ((s.jobs.foldl (fun time job => max time job.finish) s.elapsed) - s.elapsed)
  pure outcome

/-- Runs an image from a directory, as a process of its own. -/
def runProcess (limit : Option TimeLimit) (environment : Environment) (directory : Place)
    (image : Image) (disk : Disk) : Ending × Disk :=
  let start : State :=
    { disk, directory, location := Path.text ⟨.single, directory⟩
      name := image.arguments.headD [], process := firstProcess, lastProcess := firstProcess
      buffers := #[[]], channels := #[.source [], .buffer 0], streams := [(0, 0), (1, 1), (2, 1)]
      deadline := limit.map (·.nanoseconds) }
  let action : Action Outcome := do
    sleep 0
    awaitJobs (← startImage stepLimit environment image)
  if (limit.map (·.isBounded)).getD true then
    let (outcome, s) := action.run.run start
    (endingOf limit (s.written 0) outcome, s.disk)
  else (.unbounded, disk)

/-- The machine. A process starts in its directory, which has to be there. -/
def machine : Machine := fun process limit disk =>
  match disk.find true process.directory with
  | .error fault => (.notStarted (reasonOf fault) process.directory.text, disk)
  | .ok (place, entry) =>
    if !entry.isDirectory then (.notStarted .notDirectory process.directory.text, disk)
    else
      match firstImage disk ⟨.single, place⟩ (process.executable :: process.arguments) none
          process.candidates with
      | .error reason => (.notStarted reason process.executable, disk)
      | .ok image => runProcess limit process.environment place image disk

/-- The names of the machine's own programs. -/
def programNames : List Text :=
  ["sh", "dash", "env", "printenv"].map Text.ofString ++ Program.table.map (·.1)

/-- The entries of a machine's disk that hold its own programs. -/
def programEntries : List (Place × Entry) :=
  let usr := Text.ofString "usr"
  let bin := Text.ofString "bin"
  [([usr], .directory), ([usr, bin], .directory), ([bin], .link "usr/bin")] ++
    programNames.map fun name => ([usr, bin, name], .file .runnable (programContent name))

end ProviderKit.Shell
