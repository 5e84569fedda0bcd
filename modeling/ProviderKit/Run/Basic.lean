import ProviderKit.Build.Stage
import ProviderKit.Command
import ProviderKit.Message

/-!
# Runs

A run changes a world and ends with a result or a failure; a failure does not undo what was done
before it. The world is the disk, and a record of what happened: the messages, the stages
completed, and the commands called.
-/

namespace ProviderKit

/-- What a run changes, and the record of what it did. -/
structure World where
  disk : Disk
  messages : List Message := []
  completed : List Stage := []
  calls : List Call := []

/-- A run that gives a result of some type. -/
abbrev Run (α : Type) := ExceptT Failure (StateM World) α

namespace Run

/-- A run that does nothing and has the given outcome. -/
def ofExcept {α : Type} (outcome : Except Failure α) : Run α := ExceptT.mk (pure outcome)

/-- A failed run. -/
def fail {α : Type} (failure : Failure) : Run α := ofExcept (.error failure)

/-- A change of the world that cannot fail. -/
def change (f : World → World) : Run Unit := ExceptT.lift (modify f)

/-- Says something. -/
def say (message : Message) : Run Unit :=
  change fun world => { world with messages := world.messages ++ [message] }

/-- Records a stage as completed. -/
def complete (stage : Stage) : Run Unit :=
  change fun world => { world with completed := world.completed ++ [stage] }

/-- The disk as it is. -/
def disk : Run Disk := ExceptT.lift ((·.disk) <$> get)

/-- What can be told from the disk. -/
def look {α : Type} (f : Disk → Except Failure α) : Run α := do ofExcept (f (← disk))

/-- A request that gives an outcome and a disk. -/
def step {α : Type} (f : Disk → Except Failure α × Disk) : Run α := do
  let (outcome, disk) := f (← disk)
  change fun world => { world with disk }
  ofExcept outcome

/-- A request to the disk that may be refused, and then changes nothing. -/
def request (f : Disk → Except Disk.Fault Disk) : Run Unit :=
  step fun disk =>
    match f disk with
    | .ok disk => (.ok (), disk)
    | .error fault => (.error (.disk fault), disk)

/-- A request to the disk of several steps. -/
def requests (f : Disk → Except Disk.Fault Unit × Disk) : Run Unit :=
  step fun disk => ((orFail (f disk).1), (f disk).2)

/-- What the user is told who asks the program to stop. -/
def cancelled : Message := .notice "\nCancelled.\n"

/-- Calls a command, with what is recorded of it. A user who asks the program to stop meanwhile is
answered at once. -/
def call (runner : Runner) (records : Records) (command : Command) : Run CommandResult := do
  let found ← disk
  change fun world => { world with
    calls := world.calls ++ [⟨command, found⟩]
    messages := world.messages ++ (records command found).map .log }
  let (outcome, disk) := runner command found
  change fun world => { world with disk }
  if let .error .interrupted := outcome then say cancelled
  ofExcept outcome

/-- A run, and after it another one that has the last word on the world but not on the outcome:
the outcome is that of the first run unless the second one fails. -/
def thenAlways {α : Type} (body : Run α) (after : Run Unit) : Run α :=
  ExceptT.mk do
    let outcome ← body.run
    match ← after.run with
    | .ok () => pure outcome
    | .error failure => pure (.error failure)

/-- The outcome of a run on a world, and the world that it leaves. -/
def perform {α : Type} (run : Run α) (world : World) : Except Failure α × World :=
  StateT.run (ExceptT.run run) world

end Run

end ProviderKit
