import ProviderKit.Process.Lookup
import ProviderKit.Text.Lines

/-!
# Running commands on a machine

A command becomes a process: its program is looked up, and its variables are those that every
command starts with and its own on top. The output is read as UTF-8 with every line end turned into
`\n`; a process killed by a signal has the negated number of the signal as its status.
-/

namespace ProviderKit

namespace Process

/-- Why a text cannot be passed to a process. -/
def textFault? (t : Text) : Option Failure :=
  if !Disk.isEncodable t then some (.disk .unencodable)
  else if Disk.hasNull t then some .badArgument
  else none

/-- Why a variable cannot be written as a name and a value. -/
def variableFault? : Text × Text → Option Failure
  | (name, value) =>
    if !Disk.isEncodable name then some (.disk .unencodable)
    else if name.contains (.char '=') then some .badArgument
    else if !Disk.isEncodable value then some (.disk .unencodable)
    else none

/-- Why a process cannot even be tried: variables are written first, and then the arguments. -/
def fault? (p : Process) : Option Failure :=
  (p.environment.findSome? variableFault?).or <|
    ((p.executable :: p.arguments).findSome? textFault?).or <|
      if p.environment.any fun (name, value) => Disk.hasNull name || Disk.hasNull value then
        some .badArgument
      else textFault? p.directory.text

end Process

namespace Command

/-- The process of a command whose program was found. A program that was found in the directory of
the run, under its bare name, is looked for again when the process starts. -/
def process (command : Command) (executable : Text) (environment : Environment) : Process :=
  { executable
    candidates :=
      if isPathText executable then [executable]
      else (searchElements ((environment.get? searchVariable).getD usualSearchPath)).map
        (entryText · executable)
    arguments := command.args
    directory := command.directory
    environment }

/-- The result of a command whose process ended with a status. -/
def result (status : Int) (output : Bytes) : Except Failure CommandResult :=
  match Utf8.decode output with
  | .ok text => .ok ⟨status, text.normalizeNewlines⟩
  | .error fault => .error (.undecodable fault)

/-- The outcome of a command whose process came to an ending. -/
def outcome (command : Command) : Ending → Except Failure CommandResult
  | .exited status output => result status output
  | .killed signal output => result (-(signal : Int)) output
  | .unfinished limit => .error (.problem (.commandTimedOut command.program limit.text))
  | .unbounded => .error .longTime
  | .notStarted reason path =>
    .error (.problem (.commandNotStarted command.program (Disk.Fault.refusal reason path)))

end Command

/-- The runner that starts the processes of commands on a machine. -/
def Machine.runner (machine : Machine) (s : Surroundings) (base : Environment)
    (limit : Option TimeLimit) : Runner := fun command disk =>
  let environment := base.overlay command.overrides
  match s.findProgram disk environment command.program with
  | none => (.error (.problem (.commandNotFound command.program)), disk)
  | some executable =>
    let process := command.process executable environment
    match process.fault? with
    | some failure => (.error failure, disk)
    | none =>
      let (ending, disk) := machine process limit disk
      (command.outcome ending, disk)

/-- What the runner records of a command: what it starts, and the status that the process ended
with. -/
def Machine.records (machine : Machine) (s : Surroundings) (base : Environment)
    (limit : Option TimeLimit) : Records := fun command disk =>
  match s.findProgram disk (base.overlay command.overrides) command.program with
  | none => []
  | some executable =>
    let started : Text := "Running " ++ Text.join " " (executable :: command.args) ++ " in " ++
      command.directory.text
    match (machine.runner s base limit command disk).1 with
    | .error _ => [started]
    | .ok result =>
      [started, command.program ++ " exited with status " ++ Text.ofInt result.status]

end ProviderKit
