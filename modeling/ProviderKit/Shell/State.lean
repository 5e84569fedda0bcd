import ProviderKit.Disk.Change
import ProviderKit.Process.Basic
import ProviderKit.Shell.Reader
import ProviderKit.Text.Lossless

/-!
# The state of a shell

A shell has variables, functions, arguments, a directory and streams. A stream is the number of a
channel: what is written goes into a buffer, into a file, or nowhere, and what is read comes from a
file or from bytes that were there before. Shells share the disk, the buffers, the channels and the
time. Time passes only when a process sleeps, and a shell whose time is up is stopped.
-/

namespace ProviderKit.Shell

/-- Where the bytes of a stream go to or come from. -/
inductive Channel where
  /-- A buffer, by its number, that is written. -/
  | buffer (n : Nat)
  /-- Bytes that are read; these are left. -/
  | source (rest : Bytes)
  /-- A file that is read and written from a position on or, if `append` says so, written at its
  end. -/
  | file (place : Place) (position : Nat) (append : Bool)
  | nowhere

/-- The channel after entries were moved from a place to another one. -/
def Channel.afterMove (origin target : Place) : Channel → Channel
  | file place position append =>
    let moved := if origin.isPrefixOf place then target ++ place.drop origin.length else place
    .file moved position append
  | channel => channel

/-- A variable; an exported one is passed on to the processes that the shell starts, and a fixed one
keeps its value. -/
structure Variable where
  name : Text
  value : Option Text := none
  exported : Bool := false
  fixed : Bool := false

/-- A process that runs beside the script. -/
structure Job where
  process : Nat
  status : Nat
  /-- When the process ends. -/
  finish : Nat

/-- The state of a shell. -/
structure State where
  disk : Disk
  /-- The buffers, each as the pieces written to it, the last one first. -/
  buffers : Array (List Bytes) := #[]
  channels : Array Channel := #[]
  /-- The nanoseconds that have passed. -/
  elapsed : Nat := 0
  /-- When the time is up, if ever. -/
  deadline : Option Nat := none
  jobs : List Job := []
  /-- The number of the last process. -/
  lastProcess : Nat := 0
  bindings : List Variable := []
  /-- The variables that calls of functions will set back, those of the last call first. -/
  saved : List (List (Text × Option Variable)) := []
  functions : List (Text × Statement) := []
  aliases : Environment := []
  name : Text
  arguments : List Text := []
  directory : Place
  /-- The directory as the script has named it. -/
  location : Text
  /-- The line of the script that is being run. -/
  line : Nat := 1
  /-- The command of the shell that is being run. -/
  command : Option Text := none
  /-- The status of the last command. -/
  status : Nat := 0
  /-- The status of the last statement whose output was put into the command that is being run. -/
  substituted : Option Nat := none
  /-- The channels of the streams. -/
  streams : List (Nat × Nat) := []
  /-- The number of the process. -/
  process : Nat
  /-- The letters of the options that are set. -/
  options : List Char := []
  documents : List (Nat × Word) := []
  /-- The number for the next document. -/
  nextDocument : Nat := 0
  /-- What is done when a signal comes; the signal zero comes at the end. -/
  traps : List (Nat × Text) := []
  /-- The signals that came and were not answered yet. -/
  pending : List Nat := []
  /-- The traps of the process, if this is a shell inside its shell. -/
  processTraps : Option (List (Nat × Text)) := none
  /-- The number of loops around the statement that is being run. -/
  loops : Nat := 0
  /-- The argument after the one whose letters are taken as options, and how many were taken. -/
  optionPlace : Nat × Nat := (1, 0)
  /-- The permissions that new files do not get. -/
  mask : Nat := 0o22

/-- What ends a script, or a part of it, before its end. -/
inductive Stop where
  | exit (status : Nat)
  /-- An error ends the script, unless the command that made it stands for it. -/
  | failed
  /-- Ends a function, or the script where there is none. -/
  | back (status : Nat)
  /-- Leaves a number of loops. -/
  | leave (loops : Nat)
  /-- Leaves a number of loops but one, and goes on with the next turn of that one. -/
  | again (loops : Nat)
  | killed (signal : Nat)
  | outOfTime

/-- What a shell does. -/
abbrev Action (α : Type) := ExceptT Stop (StateM State) α

namespace State

/-- The state of a shell after another one, with which it shares the disk, the buffers, the channels
and the time, has done something. -/
def after (s other : State) : State :=
  { s with
    disk := other.disk, buffers := other.buffers, channels := other.channels
    elapsed := other.elapsed, jobs := other.jobs, lastProcess := other.lastProcess }

/-- An option is set. -/
def has (s : State) (option : Char) : Bool := s.options.contains option

/-- A variable by its name. -/
def variableNamed (s : State) (name : Text) : Option Variable := s.bindings.find? (·.name = name)

/-- The value of a variable. -/
def value? (s : State) (name : Text) : Option Text := (s.variableNamed name).bind (·.value)

/-- The state with a variable in place of the one of its name. -/
def withVariable (s : State) (v : Variable) : State :=
  if (s.variableNamed v.name).isSome then
    { s with bindings := s.bindings.map fun old => if old.name = v.name then v else old }
  else { s with bindings := s.bindings ++ [v] }

/-- The state with a variable set. -/
def setVariable (s : State) (name value : Text) (exported : Bool := false) : State :=
  let old := (s.variableNamed name).getD { name }
  let exported := exported || old.exported || s.has 'a'
  s.withVariable { old with value := some value, exported }

/-- The number of the list in which a variable is kept, of 39. -/
def bucket (name : Text) : Nat :=
  let bytes := (Utf8.encodeLossless name).map (·.toNat)
  (bytes.foldl (· + ·) 0 + 16 * bytes.headD 0) % 39

/-- The variables that processes are given, in the order of their lists. -/
def environment (s : State) : Environment :=
  (List.range 39).flatMap fun n =>
    s.bindings.filterMap fun v =>
      match v.value with
      | some value => if v.exported && bucket v.name = n then some (v.name, value) else none
      | none => none

/-- The directory as a path. -/
def path (s : State) : Path := ⟨.single, s.directory⟩

/-- The bytes written to a buffer. -/
def written (s : State) (n : Nat) : Bytes := ((s.buffers[n]?).getD []).reverse.flatten

/-- The channel of a stream, with its number. -/
def channel? (s : State) (stream : Nat) : Option (Nat × Channel) := do
  let i ← s.streams.lookup stream
  pure (i, ← s.channels[i]?)

/-- The state with a stream on a channel. -/
def withStream (s : State) (stream i : Nat) : State :=
  { s with streams := (stream, i) :: s.streams.filter (·.1 != stream) }

/-- The state with a stream on a new channel. -/
def openStream (s : State) (stream : Nat) (channel : Channel) : State :=
  { s with channels := s.channels.push channel }.withStream stream s.channels.size

/-- The state without a stream. -/
def closeStream (s : State) (stream : Nat) : State :=
  { s with streams := s.streams.filter (·.1 != stream) }

/-- The data of a file with bytes written at a position. -/
def overwrite (data : Bytes) (position : Nat) (bytes : Bytes) : Bytes :=
  data.take position ++ List.replicate (position - data.length) 0 ++ bytes ++
    data.drop (position + bytes.length)

/-- The state with more bytes in a stream. -/
def emit (s : State) (stream : Nat) (bytes : Bytes) : State :=
  if bytes.isEmpty then s
  else match s.channel? stream with
    | some (_, .buffer n) => { s with buffers := s.buffers.modify n (bytes :: ·) }
    | some (i, .file place position append) =>
      match s.disk.get? place with
      | some (.file mode content) =>
        let data := content.data
        let start := if append then data.length else position
        { s with
          disk := s.disk.rewrite place (.file mode (.bytes (overwrite data start bytes)))
          channels := s.channels.set! i (.file place (start + bytes.length) append) }
      | _ => s
    | _ => s

/-- The bytes of a stream that were not read yet. -/
def unread (s : State) (stream : Nat) : Bytes :=
  match s.channel? stream with
  | some (_, .source rest) => rest
  | some (_, .file place position _) =>
    match s.disk.get? place with
    | some (.file _ content) => content.data.drop position
    | _ => []
  | _ => []

/-- The state after a number of bytes of a stream were read. -/
def afterReading (s : State) (stream n : Nat) : State :=
  match s.channel? stream with
  | some (i, .source rest) => { s with channels := s.channels.set! i (.source (rest.drop n)) }
  | some (i, .file place position append) =>
    { s with channels := s.channels.set! i (.file place (position + n) append) }
  | _ => s

end State

/-- Writes bytes to the output. -/
def writeBytes (bytes : Bytes) : Action Unit := modify fun s => s.emit 1 bytes

/-- Writes a text to the output. -/
def write (t : Text) : Action Unit := writeBytes (Utf8.encodeLossless t)

/-- Takes all that is left of the input. -/
def takeInput : Action Bytes := do
  let s ← get
  let bytes := s.unread 0
  set (s.afterReading 0 bytes.length)
  pure bytes

/-- Writes a line to the error output. -/
def complain (t : Text) : Action Unit :=
  modify fun s => s.emit 2 (Utf8.encodeLossless (t ++ "\n"))

/-- Writes a complaint about the line and the command that are being run. -/
def complainHere (t : Text) : Action Unit := do
  let s ← get
  let command : Text := match s.command with
    | some command => command ++ ": "
    | none => []
  complain (s.name ++ ": " ++ Text.ofNat s.line ++ ": " ++ command ++ t)

/-- Ends the script with a complaint. -/
def fail {α : Type} (t : Text) : Action α := do
  complainHere t
  throw .failed

/-- Sets the status. -/
def finish (status : Nat) : Action Unit := modify fun s => { s with status }

/-- Sets a variable, unless it is fixed. -/
def assign (name value : Text) (exported : Bool := false) : Action Unit := do
  let s ← get
  if ((s.variableNamed name).map (·.fixed)).getD false then fail (name ++ ": is read only")
  else set (s.setVariable name value exported)

/-- Lets time pass. -/
def sleep (nanoseconds : Nat) : Action Unit := do
  modify fun s => { s with elapsed := s.elapsed + nanoseconds }
  let s ← get
  match s.deadline with
  | some deadline => if deadline ≤ s.elapsed then throw .outOfTime
  | none => pure ()

/-- The outcome of an action, which then is no longer a stop. -/
def outcomeOf {α : Type} (action : Action α) : Action (Except Stop α) :=
  ExceptT.lift action.run

/-- An action, and then a change of the state, whatever the action comes to. -/
def andThen {α : Type} (action : Action α) (change : State → State) : Action α := do
  let outcome ← outcomeOf action
  modify change
  match outcome with
  | .ok a => pure a
  | .error stop => throw stop

/-- The status with which a stop ends a shell, whose last command had a status of its own. A signal
or the end of the time ends more than a shell. -/
def Stop.status? (last : Nat) : Stop → Option Nat
  | .exit status | .back status => some status
  | .failed => some 2
  | .leave _ | .again _ => some last
  | .killed _ | .outOfTime => none

/-- An action in a shell of its own: the status stays, and what the action does to the variables,
the directory and the streams does not. An exit ends that shell only. -/
def inSubshell (action : Action Unit) : Action Unit := do
  let before ← get
  set { before with
    traps := before.traps.filter (·.2.isEmpty)
    processTraps := some (before.processTraps.getD before.traps) }
  let outcome ← outcomeOf action
  let after ← get
  set { before.after after with
    channels := after.channels.shrink before.channels.size, pending := after.pending }
  match outcome with
  | .ok () => finish after.status
  | .error stop =>
    match stop.status? after.status with
    | some status => finish status
    | none => throw stop

/-- The bytes that an action writes, which is done in a shell of its own. -/
def capture (action : Action Unit) : Action Bytes := do
  let n := (← get).buffers.size
  modify fun s => { s with buffers := s.buffers.push [] }
  inSubshell do
    modify fun s => s.openStream 1 (.buffer n)
    action
  let bytes := (← get).written n
  modify fun s => { s with buffers := s.buffers.shrink n }
  pure bytes

end ProviderKit.Shell
