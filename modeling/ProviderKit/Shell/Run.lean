import ProviderKit.Shell.Image
import ProviderKit.Shell.Program.Table

/-!
# Running scripts

Statements are run in order, each on words that have been expanded, and commands are looked up: a
name may be that of a function, of a command of the shell, or of a program. All of it happens within
a number of steps; a script that needs more is one that never ends, and its time is up.
-/

namespace ProviderKit.Shell

/-- The search path of a shell that is given none. -/
def shellSearchPath : Text := "/usr/local/sbin:/usr/local/bin:/usr/sbin:/usr/bin:/sbin:/bin"

namespace State

/-- The state of a new shell with arguments in an environment. -/
def start (s : State) (name : Text) (arguments : List Text) (environment : Environment) : State :=
  let valued (named : List (String × Text)) : List Variable :=
    named.map fun (name, value) => { name, value := some value }
  let usual := valued
    [("IFS", " \t\n"), ("PATH", shellSearchPath), ("PS1", "# "), ("PS2", "> "), ("PS4", "+ "),
     ("OPTIND", "1")]
  let given := environment.filter fun (name, _) => isName name
  let fresh : State :=
    { disk := s.disk, buffers := s.buffers, channels := s.channels, elapsed := s.elapsed
      deadline := s.deadline, jobs := s.jobs, lastProcess := s.lastProcess, streams := s.streams
      process := s.process, bindings := usual, name, arguments, directory := s.directory
      location := s.path.text }
  let fresh := given.foldl (fun s (name, value) => s.setVariable name value true) fresh
  let fresh := (fresh.setVariable "IFS" " \t\n").setVariable "OPTIND" "1"
  let location := match fresh.value? "PWD" with
    | some t =>
      match t, s.disk.find true (.ofText t) with
      | .char '/' :: _, .ok (place, _) => if place = s.directory then t else s.path.text
      | _, _ => s.path.text
    | none => s.path.text
  { fresh with location }.setVariable "PWD" location true

/-- Where to look for programs. -/
def searchPath (s : State) : Text := (s.value? searchVariable).getD []

end State

/-- What a name found along a search path leads to. -/
inductive Found where
  | program (path : Text)
  /-- There are files, but none of them can be run. -/
  | denied
  | missing

/-- What the name of a program leads to. -/
def State.findProgram (s : State) (path name : Text) : Found :=
  if isPathText name then
    match s.disk.find true (pathOf s name) with
    | .ok _ => .program name
    | .error _ => .missing
  else
    let candidates := (searchElements path).map (entryText · name)
    match candidates.find? (s.disk.isRunnable s.path) with
    | some found => .program found
    | none =>
      if candidates.any fun t => (s.disk.find true (pathOf s t)).toOption.isSome then .denied
      else .missing

/-- How a process came to its end. -/
inductive Outcome where
  | exited (status : Nat)
  | killed (signal : Nat)

/-- Does something as a process of its own. -/
def asProcess (action : Action Unit) : Action Outcome := do
  let before ← get
  let process := before.lastProcess + 1
  set { before with process, lastProcess := process }
  let outcome ← outcomeOf action
  let after ← get
  set { before.after after with channels := after.channels.shrink before.channels.size }
  match outcome with
  | .ok () => pure (.exited after.status)
  | .error (.killed signal) => pure (.killed signal)
  | .error stop =>
    match stop.status? after.status with
    | some status => pure (.exited status)
    | none => throw stop

/-- Takes the outcome of a process for the status; a death is told. -/
def settleOutcome : Outcome → Action Unit
  | .exited status => finish status
  | .killed signal => do
    if signal != 2 && signal != 13 then complain (Control.wait.deathOf signal)
    finish (128 + signal)

/-- Writes an environment. -/
def printEnvironment (environment : Environment) : Action Unit := do
  write (environment.flatMap fun (name, value) => name ++ "=" ++ value ++ "\n")
  finish 0

/-- Writes the values of variables; one that is not set makes the status one. -/
def printValues (environment : Environment) (names : List Text) : Action Unit := do
  let values := names.filterMap fun name => environment.get? name
  write (values.flatMap fun (value : Text) => value ++ "\n")
  finish (if values.length = names.length then 0 else 1)

/-- What a program is given to start in an environment of its own. -/
structure Launch where
  environment : Environment
  /-- The program and its arguments. -/
  words : List Text

/-- The environment and the program that arguments ask for. -/
def readLaunch (environment : Environment) (arguments : List Text) : Action Launch := do
  let g ← Program.read "env"
    { letters := "iv0", valued := "uCS", strict := true, status := 125
      names := [("ignore-environment", 'i'), ("unset", 'u'), ("split-string", 'S')] } arguments
  let isBare := g.operands.head? = some (Text.ofString "-")
  let base : Environment := if g.has 'i' || isBare then [] else environment
  let base : Environment := base.filter fun (name, _) => !(g.values 'u').contains name
  let split := (g.values 'S').flatMap fun t =>
    (Text.split (.char ' ') t).filter fun word => !word.isEmpty
  let operands := split ++ if isBare then g.operands.drop 1 else g.operands
  let isVariable (a : Text) : Bool := a.contains (.char '=')
  let assigned := (operands.takeWhile isVariable).map fun a =>
    let (name, value) := Text.cut (.char '=') a
    (name, value.getD [])
  pure { environment := Environment.overlay base assigned, words := operands.dropWhile isVariable }

/-- A command as it is shown before it is run. -/
def traceLine (s : State) (assigned : Environment) (texts : List Text) : Text :=
  let words := (assigned.map fun (name, value) => name ++ "=" ++ value) ++ texts
  (s.value? "PS4").getD [] ++ Text.join " " words

/-- An action, after which variables are again what they were. -/
def withVariables (assigned : Environment) (action : Action Unit) : Action Unit := do
  let before ← get
  for (name, value) in assigned do assign name value true
  andThen action fun s => assigned.foldl (fun s (name, _) =>
    match before.variableNamed name with
    | some v => s.withVariable v
    | none => { s with bindings := s.bindings.filter (·.name != name) }) s

/-- Does something inside a loop. -/
def inLoop (action : Action Unit) : Action Unit := do
  modify fun s => { s with loops := s.loops + 1 }
  andThen action fun s => { s with loops := s.loops - 1 }

mutual

/-- Runs a statement. The status of a `tested` one is looked at by the script. Signals are answered
at its end. -/
def runStatement : Nat → Bool → Statement → Action Unit
  | 0, _, _ => throw .outOfTime
  | fuel + 1, tested, statement => do
    let run : Statement → Action Unit := runStatement fuel false
    let leaveIfStrict : Action Unit := do
      let s ← get
      if s.has 'e' && !tested && s.status != 0 then throw (.exit s.status)
    match statement with
    | .nothing => finish 0
    | .simple line assignments words redirections =>
      modify fun s => { s with line, substituted := none }
      runSimple fuel tested assignments words redirections
      answerSignals fuel
      leaveIfStrict
    | .define name body =>
      modify fun s => { s with functions := (name, body) :: s.functions.filter (·.1 != name) }
      finish 0
    | .redirected line body redirections =>
      modify fun s => { s with line }
      let streams := (← get).streams
      let back (s : State) : State := { s with streams }
      andThen (do
        match ← Redirect.all run fuel redirections with
        | some complaint =>
          complainHere complaint
          finish 2
        | none => runStatement fuel tested body) back
    | .seq first second =>
      runStatement fuel tested first
      runStatement fuel tested second
    | .both first second =>
      runStatement fuel true first
      if (← get).status = 0 then runStatement fuel tested second
    | .either first second =>
      runStatement fuel true first
      if (← get).status != 0 then runStatement fuel tested second
    | .negated body =>
      runStatement fuel true body
      finish (if (← get).status = 0 then 1 else 0)
    | .piped .. =>
      runPipes fuel tested statement
      answerSignals fuel
      leaveIfStrict
    | .background body => runBeside fuel body
    | .subshell line body redirections =>
      modify fun s => { s with line }
      inSubshell (withExitTrap fuel do
        match ← Redirect.all run fuel redirections with
        | some complaint =>
          complainHere complaint
          finish 2
        | none => runStatement fuel tested body)
      answerSignals fuel
      leaveIfStrict
    | .choice test yes no =>
      runStatement fuel true test
      if (← get).status = 0 then runStatement fuel tested yes
      else runStatement fuel tested no
    | .loop negate test body => inLoop (runLoop fuel tested negate test body 0)
    | .each line name items body =>
      modify fun s => { s with line }
      let texts ← match items with
        | some words => do pure (← words.mapM (Expansion.texts run fuel)).flatten
        | none => pure (← get).arguments
      finish 0
      inLoop (runEach fuel tested name body texts)
    | .select line subject arms =>
      modify fun s => { s with line, substituted := none }
      let t ← Expansion.single run fuel subject
      match ← chooseArm fuel t arms with
      | some .nothing | none => finish 0
      | some body => runStatement fuel tested body

/-- The first arm of which a pattern matches. -/
def chooseArm : Nat → Text → List (List Word × Statement) → Action (Option Statement)
  | 0, _, _ => throw .outOfTime
  | _ + 1, _, [] => pure none
  | fuel + 1, t, (patterns, body) :: arms => do
    for pattern in patterns do
      let pattern ← Expansion.text (runStatement fuel false) fuel
        ((← get).withHomes false pattern)
      if pattern.matches t then return some body
    chooseArm fuel t arms

/-- The words of a command. Assignments among the arguments of a command that makes them are not
cut. -/
def expandWords : Nat → List Word → Action (List Text)
  | 0, _ => throw .outOfTime
  | _ + 1, [] => pure []
  | fuel + 1, first :: rest => do
    let run : Statement → Action Unit := runStatement fuel false
    match ← Expansion.texts run fuel first with
    | [] => expandWords fuel rest
    | name :: more =>
      let assigns := Control.assigningCommands.contains name
      let others ← rest.mapM fun word => do
        match if assigns then assignment? word else none with
        | some (name, value) =>
          pure [name ++ Text.ofString "=" ++ (← Expansion.assigned run fuel value)]
        | none => Expansion.texts run fuel word
      pure (name :: more ++ others.flatten)

/-- Runs a simple command: its words are expanded, its streams redirected, its variables set, and
then it is looked up. -/
def runSimple : Nat → Bool → List (Text × Word) → List Word → List Redirection → Action Unit
  | 0, _, _, _, _ => throw .outOfTime
  | fuel + 1, tested, assignments, words, redirections => do
    let run : Statement → Action Unit := runStatement fuel false
    let texts ← expandWords fuel words
    let special := specialCommands.contains (texts.headD [])
    let streams := (← get).streams
    let stays := texts = [Text.ofString "exec"]
    let trace (assigned : Environment) : Action Unit := do
      let s ← get
      if s.has 'x' then
        let shown := { s with streams }.emit 2
          (Utf8.encodeLossless (traceLine s assigned texts ++ "\n"))
        set { shown with streams := s.streams }
    andThen (do
      match ← Redirect.all run fuel redirections with
      | some complaint =>
        complainHere complaint
        if special then throw .failed
        finish 2
        modify fun s => { s with streams }
      | none =>
        let assigned ← assignments.mapM fun (name, word) => do
          pure (name, ← Expansion.assigned run fuel word)
        trace assigned
        match texts with
        | [] =>
          for (name, value) in assigned do assign name value
          finish ((← get).substituted.getD 0)
        | name :: arguments =>
          if special then
            for (name, value) in assigned do assign name value
            runCommand fuel tested name arguments
          else withVariables assigned (runCommand fuel tested name arguments))
      fun s => if stays then s else { s with streams }

/-- Runs a command with its arguments. -/
def runCommand : Nat → Bool → Text → List Text → Action Unit
  | 0, _, _, _ => throw .outOfTime
  | fuel + 1, tested, name, arguments => do
    match (← get).functions.lookup name with
    | some body => runFunction fuel tested body arguments
    | none =>
      if Control.isControl name then runControl fuel tested name arguments
      else runProgram fuel name arguments

/-- Calls a function with arguments of its own. -/
def runFunction : Nat → Bool → Statement → List Text → Action Unit
  | 0, _, _, _ => throw .outOfTime
  | fuel + 1, tested, body, arguments => do
    let before ← get
    set { before with arguments, saved := [] :: before.saved, optionPlace := (1, 0), loops := 0 }
    andThen (do
      match ← outcomeOf (runStatement fuel tested body) with
      | .ok () => pure ()
      | .error (.back status) => finish status
      | .error stop => throw stop)
      fun s =>
        let s := (s.saved.headD []).foldl (fun s (name, v?) =>
          match v? with
          | some v => s.withVariable v
          | none => { s with bindings := s.bindings.filter (·.name != name) }) s
        { s with
          arguments := before.arguments, saved := before.saved, loops := before.loops
          optionPlace := before.optionPlace }

/-- Runs a command of the shell. -/
def runControl : Nat → Bool → Text → List Text → Action Unit
  | 0, _, _, _ => throw .outOfTime
  | fuel + 1, tested, name, arguments => do
    let before := (← get).command
    set { (← get) with command := some name }
    let outcome ← outcomeOf do
      match Control.table.lookup name with
      | some utility => finish (← utility arguments)
      | none => runRunner fuel tested name arguments
    modify fun s => { s with command := before }
    match outcome with
    | .ok () => pure ()
    | .error .failed => if specialCommands.contains name then throw .failed else finish 2
    | .error stop => throw stop

/-- Runs a command of the shell that runs other commands. -/
def runRunner : Nat → Bool → Text → List Text → Action Unit
  | 0, _, _, _ => throw .outOfTime
  | fuel + 1, tested, name, arguments => do
    let s ← get
    match name.toString, arguments with
    | "eval", _ =>
      if arguments.all (·.isEmpty) then finish 0
      else runText fuel tested (Text.join " " arguments)
    | ".", script :: _ =>
      let found? := if isPathText script then some script
        else match s.findProgram s.searchPath script with
          | .program found => some found
          | .denied | .missing =>
            ((searchElements s.searchPath).map (entryText · script)).find? fun t =>
              (s.disk.read (pathOf s t)).toOption.isSome
      match found? with
      | none => fail (script ++ ": not found")
      | some found =>
        match s.disk.read (pathOf s found) with
        | .ok content =>
          set { s with command := some found }
          match ← outcomeOf (runText fuel false (Utf8.decodeLossless content.data)) with
          | .ok () => pure ()
          | .error (.back status) => finish status
          | .error stop => throw stop
        | .error fault => fail ("cannot open " ++ found ++ ": " ++ openFault false fault)
    | "exec", program :: rest =>
      match s.findProgram s.searchPath program with
      | .missing =>
        complainHere (program ++ ": not found")
        throw (.exit 127)
      | .denied =>
        complainHere (program ++ ": Permission denied")
        throw (.exit 126)
      | .program found =>
        match imageOf s.disk s.path interpreterLimit found (program :: rest) with
        | .error .permissionDenied =>
          complainHere (program ++ ": Permission denied")
          throw (.exit 126)
        | _ => match ← startProgram fuel s.environment found (program :: rest) with
          | .exited status =>
            modify fun s => { s with traps := [] }
            throw (.exit status)
          | .killed signal => throw (.killed signal)
    | "command", _ =>
      let (letters, operands) ← Control.options "pvV" arguments
      match operands with
      | [] => finish 0
      | program :: rest =>
        if letters.contains 'v' || letters.contains 'V' then
          describe (letters.contains 'V') program
        else if Control.isControl program then
          modify fun s => { s with command := none }
          runControl fuel tested program rest
        else
          modify fun s => { s with command := none }
          runProgram fuel program rest
    | "type", _ =>
      let mut status := 0
      for argument in arguments do
        describe true argument
        status := max status (← get).status
      finish status
    | _, _ => finish 0

/-- Says what a name stands for, in words or as it would be called. -/
def describe (inWords : Bool) (name : Text) : Action Unit := do
  let s ← get
  let tell (words call : Text) : Action Unit := do
    write ((if inWords then name ++ Text.ofString " is " ++ words else call) ++ "\n")
    finish 0
  match s.aliases.get? name with
  | some value =>
    tell ("an alias for " ++ value) ("alias " ++ name ++ "=" ++ Control.quoted value)
  | none =>
    if keywords.contains name then tell "a shell keyword" name
    else if (s.functions.lookup name).isSome then tell "a shell function" name
    else if specialCommands.contains name then tell "a special shell builtin" name
    else if Control.isControl name then tell "a shell builtin" name
    else match s.findProgram s.searchPath name with
      | .program found =>
        if isPathText name && !s.disk.isRunnable s.path name then
          if inWords then write (name ++ ": not found\n")
          finish 127
        else tell found found
      | .denied | .missing =>
        if inWords then write (name ++ ": not found\n")
        finish 127

/-- Runs a program and takes its outcome for the status. -/
def runProgram : Nat → Text → List Text → Action Unit
  | 0, _, _ => throw .outOfTime
  | fuel + 1, name, arguments => do
    let s ← get
    match s.findProgram s.searchPath name with
    | .missing =>
      complainHere (name ++ ": not found")
      finish 127
    | .denied =>
      complainHere (name ++ ": Permission denied")
      finish 127
    | .program found =>
      match imageOf s.disk s.path interpreterLimit found (name :: arguments) with
      | .error .permissionDenied =>
        complainHere (name ++ ": Permission denied")
        finish 126
      | _ => settleOutcome (← startProgram fuel s.environment found (name :: arguments))

/-- Starts the program at a path. A file that is none is a script of the shell. -/
def startProgram : Nat → Environment → Text → List Text → Action Outcome
  | 0, _, _, _ => throw .outOfTime
  | fuel + 1, environment, path, words => do
    let s ← get
    match imageOf s.disk s.path interpreterLimit path words with
    | .ok image => startImage fuel environment image
    | .error .notExecutable =>
      startImage fuel environment ⟨"sh", words.headD [] :: path :: words.drop 1⟩
    | .error _ =>
      complainHere (words.headD [] ++ ": not found")
      pure (.exited 127)

/-- Runs a program of the machine in an environment, as a process. -/
def startImage : Nat → Environment → Image → Action Outcome
  | 0, _, _ => throw .outOfTime
  | fuel + 1, environment, image =>
    asProcess do
      let arguments := image.arguments.drop 1
      match image.program.toString with
      | "sh" | "dash" => runShell fuel environment image.arguments
      | "env" =>
        let launch ← readLaunch environment arguments
        match launch.words with
        | [] => printEnvironment launch.environment
        | words => launchProgram fuel launch.environment "env" words
      | "printenv" =>
        if arguments.isEmpty then printEnvironment environment
        else printValues environment arguments
      | _ =>
        match Program.table.lookup image.program with
        | some utility =>
          modify fun s => { s with name := image.program, command := none }
          finish (← utility arguments)
        | none => finish 127

/-- Starts a program in place of the one that looks for it. -/
def launchProgram : Nat → Environment → String → List Text → Action Unit
  | 0, _, _, _ => throw .outOfTime
  | fuel + 1, environment, caller, words => do
    let name := words.headD []
    let refuse (reason : Text) (status : Nat) : Action Unit :=
      Program.stop status (Text.ofString caller ++ ": " ++ Program.named name ++ ": " ++ reason)
    let path := (environment.get? searchVariable).getD usualSearchPath
    match (← get).findProgram path name with
    | .missing => refuse "No such file or directory" 127
    | .denied => refuse "Permission denied" 126
    | .program found =>
      match imageOf (← get).disk (← get).path interpreterLimit found words with
      | .error .permissionDenied => refuse "Permission denied" 126
      | _ =>
        match ← startProgram fuel environment found words with
        | .exited status => finish status
        | .killed signal => throw (.killed signal)

/-- Runs a shell as its arguments say: a text to be run, or the path of a script. -/
def runShell : Nat → Environment → List Text → Action Unit
  | 0, _, _ => throw .outOfTime
  | fuel + 1, environment, words => do
    let called := words.headD "sh"
    modify fun s => { s.start called [] environment with line := 0 }
    let asksText (a : Text) : Bool := a.hasPrefix "-" && a.contains (.char 'c')
    let given := (words.drop 1).takeWhile fun a => a.hasPrefix "-" && a.length > 1
    let isText := given.any asksText
    let isInput := given.any fun a => a.contains (.char 's')
    let cleaned := (words.drop 1).map fun a =>
      if given.contains a then a.filter fun c => c != .char 'c' && c != .char 's' else a
    let cleaned := cleaned.filter (· != Text.ofString "-")
    let operands := (← Control.takeOptions (words.length + 1) cleaned).getD []
    let begin (name : Text) (arguments : List Text) (source : Text) : Action Unit := do
      modify fun s => { s with name, arguments }
      withExitTrap fuel (runText fuel false source)
    match isText, operands with
    | true, [] => fail "-c requires an argument"
    | true, source :: rest => begin (rest.headD called) (rest.drop 1) source
    | false, [] => begin called [] (Utf8.decodeLossless (← takeInput))
    | false, script :: rest =>
      if isInput then begin called operands (Utf8.decodeLossless (← takeInput))
      else
        let s ← get
        match s.disk.read (pathOf s script) with
        | .ok content => begin script rest (Utf8.decodeLossless content.data)
        | .error fault => fail ("cannot open " ++ script ++ ": " ++ openFault false fault)

/-- An action at whose end the trap for the end of the shell is answered. -/
def withExitTrap : Nat → Action Unit → Action Unit
  | 0, _ => throw .outOfTime
  | fuel + 1, action => do
    let outcome ← outcomeOf action
    let s ← get
    let status ← match outcome with
      | .ok () => pure s.status
      | .error stop => match stop.status? s.status with
        | some status => pure status
        | none => throw stop
    match s.traps.lookup 0 with
    | some text =>
      set { s with status, traps := s.traps.filter (·.1 != 0) }
      match ← outcomeOf (runText fuel false text) with
      | .error .failed => throw (.exit 2)
      | .error (.exit status) | .error (.back status) => throw (.exit status)
      | .error (.killed signal) => throw (.killed signal)
      | .error .outOfTime => throw .outOfTime
      | .ok () | .error (.leave _) | .error (.again _) => throw (.exit status)
    | none => throw (.exit status)

/-- Answers the signals that came. -/
def answerSignals : Nat → Action Unit
  | 0 => throw .outOfTime
  | fuel + 1 => do
    let s ← get
    match s.pending, s.processTraps with
    | signal :: others, none =>
      set { s with pending := others }
      match s.traps.lookup signal with
      | some text =>
        runText fuel false text
        finish s.status
      | none => pure ()
      answerSignals fuel
    | _, _ => pure ()

/-- Runs joined commands, each in a shell of its own; the input of each but the first is the output
of the one before it. -/
def runPipes : Nat → Bool → Statement → Action Unit
  | 0, _, _ => throw .outOfTime
  | fuel + 1, tested, statement => do
    let alone (body : Statement) : Action Unit :=
      withExitTrap fuel (runStatement fuel tested body)
    match statement with
    | .piped first second =>
      let bytes ← capture (alone first)
      inSubshell do
        modify fun s => s.openStream 0 (.source bytes)
        runPipes fuel tested second
    | body => inSubshell (alone body)

/-- Runs a statement beside the script. It is run at once, but takes no time of the script's. -/
def runBeside : Nat → Statement → Action Unit
  | 0, _ => throw .outOfTime
  | fuel + 1, body => do
    let before ← get
    let process := before.lastProcess + 1
    set { before with lastProcess := process, deadline := none }
    let outcome ← outcomeOf (inSubshell do
      modify fun s => s.openStream 0 .nowhere
      withExitTrap fuel (runStatement fuel true body))
    let after ← get
    let job : Job := { process, status := after.status, finish := after.elapsed }
    set { after with
      elapsed := before.elapsed, deadline := before.deadline, jobs := job :: after.jobs }
    match outcome with
    | .ok () | .error .outOfTime => finish 0
    | .error stop => throw stop

/-- Runs the turns of a loop; `status` is that of the last turn. -/
def runLoop : Nat → Bool → Bool → Statement → Statement → Nat → Action Unit
  | 0, _, _, _, _, _ => throw .outOfTime
  | fuel + 1, tested, negate, test, body, status => do
    let turn : Action Unit := runStatement fuel tested body
    let outcome ← outcomeOf do
      runStatement fuel true test
      if ((← get).status = 0) = negate then throw (.leave 0) else turn
    match outcome with
    | .ok () | .error (.again 1) => runLoop fuel tested negate test body (← get).status
    | .error (.leave 0) => finish status
    | .error (.leave 1) => finish 0
    | .error (.leave n) => throw (.leave (n - 1))
    | .error (.again n) => throw (.again (n - 1))
    | .error stop => throw stop

/-- Runs the body of a loop for each text. -/
def runEach : Nat → Bool → Text → Statement → List Text → Action Unit
  | 0, _, _, _, _ => throw .outOfTime
  | _ + 1, _, _, _, [] => pure ()
  | fuel + 1, tested, name, body, t :: rest => do
    assign name t
    match ← outcomeOf (runStatement fuel tested body) with
    | .ok () | .error (.again 1) => runEach fuel tested name body rest
    | .error (.leave 1) => finish 0
    | .error (.leave n) => throw (.leave (n - 1))
    | .error (.again n) => throw (.again (n - 1))
    | .error stop => throw stop

/-- Runs the text of a script, line by line. -/
def runText : Nat → Bool → Text → Action Unit
  | 0, _, _ => throw .outOfTime
  | fuel + 1, tested, source => do
    runLines fuel tested { rest := source, nextId := (← get).nextDocument }

/-- Runs the rest of a script. -/
def runLines : Nat → Bool → Cursor → Action Unit
  | 0, _, _ => throw .outOfTime
  | fuel + 1, tested, cursor => do
    let s ← get
    match { cursor with aliases := s.aliases, documents := [] }.next? with
    | .error fault =>
      modify fun s => { s with line := fault.line }
      fail fault.message
    | .ok none => pure ()
    | .ok (some (statement, cursor)) =>
      set { s with
        documents := cursor.documents ++ s.documents
        nextDocument := max s.nextDocument cursor.nextId }
      match statement with
      | .nothing => pure ()
      | statement => if !s.has 'n' then runStatement fuel tested statement
      runLines fuel tested cursor

end

end ProviderKit.Shell
