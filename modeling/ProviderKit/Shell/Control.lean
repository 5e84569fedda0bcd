import ProviderKit.Shell.Condition
import ProviderKit.Shell.Expansion
import ProviderKit.Shell.Format

/-!
# Commands of the shell

The commands that change the shell itself, or that it does without starting a process, as far as
they run no other command. Each one is an action that gives its status. An error in a special
command ends the script; an error in any other one is its status.
-/

namespace ProviderKit.Shell

/-- What a command does with its arguments. -/
abbrev Utility := List Text → Action Nat

/-- The path that a text denotes in the shell's directory. -/
def pathOf (s : State) (t : Text) : Path := s.path.join (.ofText t)

namespace Control

/-- A number that is not negative. -/
def number (t : Text) : Action Nat :=
  match Arithmetic.integer? t with
  | some (.ofNat n) => if n < Nat.pow 2 31 then pure n else fail ("Illegal number: " ++ t)
  | _ => fail ("Illegal number: " ++ t)

/-- What is said of an option that is not known. -/
def illegal (sign : Char) (option : Text) : Text := "Illegal option " ++ .char sign :: option

/-- The letters of the options in front of the other arguments, and those arguments. Letters that
are not known are an error. -/
def options (known : String) : List Text → Action (List Char × List Text)
  | [] => pure ([], [])
  | argument :: rest =>
    match argument with
    | [.char '-', .char '-'] => pure ([], rest)
    | .char '-' :: c :: letters => do
      let given : Text := c :: letters
      match given.find? fun c => !c.satisfies known.toList.contains with
      | some c => fail (illegal '-' [c])
      | none =>
        let (more, operands) ← options known rest
        pure ((given.map fun | .char c => c | .surrogate _ => '?') ++ more, operands)
    | _ => pure ([], argument :: rest)

/-- Writes the arguments with blanks between them; escapes are replaced. -/
def echo : Utility := fun arguments => do
  let (lineEnd, arguments) : Bool × List Text := match arguments with
    | first :: rest => if first = Text.ofString "-n" then (false, rest) else (true, arguments)
    | [] => (true, [])
  let t := Text.join " " arguments
  let (bytes, ended) := unescape t.length t
  writeBytes (if ended || !lineEnd then bytes else bytes ++ [10])
  pure 0

/-- Writes the arguments by the format that comes first. -/
def printf : Utility := fun arguments => do
  let (_, operands) ← options "" arguments
  match operands with
  | [] => fail "usage: printf format [arg ...]"
  | pattern :: rest =>
    let printed := Printed.ofFormat pattern rest
    for complaint in printed.complaints do complainHere complaint
    match printed.fault with
    | some complaint =>
      complainHere complaint
      writeBytes printed.bytes
      pure 2
    | none =>
      writeBytes printed.bytes
      pure (if printed.complaints.isEmpty then 0 else 1)

/-- Answers a condition. -/
def test : Utility := fun arguments => do
  let s ← get
  match ask { disk := s.disk, directory := s.path } arguments with
  | .ok answer => pure (if answer then 0 else 1)
  | .error complaint => fail complaint

/-- Answers a condition between brackets. -/
def bracket : Utility := fun arguments =>
  if arguments.getLast? = some (Text.ofString "]") then test arguments.dropLast
  else fail "missing ]"

/-- Writes the directory, as it was named or, if asked, as it is. -/
def printDirectory : Utility := fun arguments => do
  let (letters, _) ← options "LP" arguments
  let s ← get
  write ((if letters.getLast? = some 'P' then s.path.text else s.location) ++ "\n")
  pure 0

/-- The text of a directory that a path leads to from a named one, without looking at the disk. -/
def locate (location target : Text) : Text :=
  let start : List Text :=
    if target.head? = some (.char '/') then [] else Text.split (.char '/') location
  let names := (start ++ Text.split (.char '/') target).foldl
    (fun (names : List Text) name =>
      if name.isEmpty || name = Text.ofString "." then names
      else if name = Text.ofString ".." then names.drop 1
      else name :: names) []
  .char '/' :: Text.join "/" names.reverse

/-- Goes to a directory. -/
def changeDirectory : Utility := fun arguments => do
  let (letters, operands) ← options "LP" arguments
  let s ← get
  let isBack := operands.head? = some (Text.ofString "-")
  let target :=
    if isBack then (s.value? "OLDPWD").getD [] else operands.headD ((s.value? "HOME").getD [])
  let location :=
    if letters.getLast? = some 'P' then (pathOf s target).text else locate s.location target
  match s.disk.find true (.ofText location) with
  | .ok (place, .directory) =>
    let location := if letters.getLast? = some 'P' then Path.text ⟨.single, place⟩ else location
    set { s with directory := place, location }
    assign "OLDPWD" s.location true
    assign "PWD" location true
    if isBack then write (location ++ "\n")
    pure 0
  | _ => fail ("can't cd to " ++ target)

/-- A text in single quotes; a single quote in it stands between double ones. -/
def quote : Nat → Text → Text
  | 0, _ => []
  | fuel + 1, t =>
    let plain := t.takeWhile (· != .char '\x27')
    let quotes := (t.drop plain.length).takeWhile (· = .char '\x27')
    let rest := t.drop (plain.length + quotes.length)
    let double : Text := if quotes.isEmpty then [] else "\"" ++ quotes ++ "\""
    let further : Text := if rest.isEmpty then [] else quote fuel rest
    "'" ++ plain ++ "'" ++ double ++ further

/-- A text as the shell would read it again. -/
def quoted (t : Text) : Text := quote (t.length + 1) t

/-- Writes variables in order of their names, each after a word. -/
def printVariables (word : Text) (listed : List Variable) : Action Unit :=
  write <| (Disk.inOrder (fun (a b : Variable) => Text.le a.name b.name) listed).flatMap
    fun (v : Variable) =>
      let value : Text := match v.value with
        | some value => "=" ++ quoted value
        | none => []
      word ++ v.name ++ value ++ "\n"

/-- The name and the value that an argument gives, if it gives a name. -/
def named (argument : Text) : Action (Text × Option Text) := do
  let (name, value?) := Text.cut (.char '=') argument
  if isName name then pure (name, value?) else fail (name ++ ": bad variable name")

/-- Marks variables, some of which get a value. -/
def mark (word : Text) (isMarked : Variable → Bool) (change : Variable → Variable) : Utility :=
  fun arguments => do
    let (letters, operands) ← options "p" arguments
    if letters.contains 'p' || operands.isEmpty then
      printVariables (word ++ " ") ((← get).bindings.filter isMarked)
    else
      for argument in operands do
        let (name, value?) ← named argument
        match value? with
        | some value => assign name value
        | none => pure ()
        modify fun s => s.withVariable (change ((s.variableNamed name).getD { name }))
    pure 0

/-- Passes variables on to processes. -/
def exportVariables : Utility :=
  mark "export" (·.exported) fun v => { v with exported := true }

/-- Lets variables keep their values. -/
def fixVariables : Utility := mark "readonly" (·.fixed) fun v => { v with fixed := true }

/-- Keeps the variable of a name, so that the function that is running sets it back at its end. -/
def saveVariable (name : Text) : Action Unit :=
  modify fun s =>
    match s.saved with
    | frame :: frames =>
      if frame.any (·.1 = name) then s
      else { s with saved := ((name, s.variableNamed name) :: frame) :: frames }
    | [] => s

/-- Gives a function variables of its own. -/
def localVariables : Utility := fun arguments => do
  if (← get).saved.isEmpty then fail "not in a function"
  for argument in arguments do
    let (name, value?) ← named argument
    saveVariable name
    match value? with
    | some value => assign name value
    | none => pure ()
  pure 0

/-- Takes variables or functions away. -/
def unset : Utility := fun arguments => do
  let (letters, operands) ← options "vf" arguments
  for name in operands do
    if letters.contains 'f' then
      modify fun s => { s with functions := s.functions.filter (·.1 != name) }
    else
      if !isName name then fail (name ++ ": bad variable name")
      let s ← get
      if ((s.variableNamed name).map (·.fixed)).getD false then fail (name ++ ": is read only")
      set { s with bindings := s.bindings.filter (·.name != name) }
  pure 0

/-- The options of the shell by name and letter. -/
def optionNames : List (Text × Char) :=
  [("errexit", 'e'), ("noglob", 'f'), ("ignoreeof", 'I'), ("interactive", 'i'), ("monitor", 'm'),
   ("noexec", 'n'), ("stdin", 's'), ("xtrace", 'x'), ("verbose", 'v'), ("vi", 'V'),
   ("emacs", 'E'), ("noclobber", 'C'), ("allexport", 'a'), ("notify", 'b'), ("nounset", 'u')]

/-- Sets an option of the shell or takes it back. -/
def setOption (on : Bool) (letter : Char) : Action Unit :=
  modify fun s =>
    let others := s.options.filter (· != letter)
    { s with options := if on then letter :: others else others }

/-- Writes the options of the shell. -/
def printOptions (on : Bool) : Action Unit := do
  let s ← get
  let line (option : Text × Char) : Text :=
    let isSet := s.has option.2
    let state : Text := if isSet then "on\n" else "off\n"
    let setting : Text := if isSet then "set -o " else "set +o "
    if on then option.1 ++ List.replicate (16 - option.1.length) (.char ' ') ++ state
    else setting ++ option.1 ++ "\n"
  if on then write "Current option settings\n"
  write (optionNames.flatMap line)

/-- Sets options from the front of arguments, up to the first one that is none, and gives the
arguments that are left, if any are named. -/
def takeOptions : Nat → List Text → Action (Option (List Text))
  | 0, _ | _, [] => pure none
  | fuel + 1, argument :: rest => do
    let on := argument.hasPrefix "-"
    match argument with
    | [.char '-', .char '-'] => pure (some rest)
    | [.char '-'] => do
      setOption false 'x'
      setOption false 'v'
      if rest.isEmpty then pure none else pure (some rest)
    | .char c :: letters =>
      if c != '-' && c != '+' then pure (some (argument :: rest))
      else do
        let mut rest := rest
        for letter in letters do
          if letter = .char 'o' then
            match rest with
            | [] => printOptions on
            | name :: others =>
              match optionNames.lookup name with
              | some letter => setOption on letter
              | none => fail (illegal c (Text.ofString "o " ++ name))
              rest := others
          else match optionNames.find? fun (_, known) => letter = .char known with
            | some (_, known) => setOption on known
            | none => fail (illegal c [letter])
        takeOptions fuel rest
    | _ => pure (some (argument :: rest))

/-- Sets options and arguments of the shell, or writes its variables. -/
def setShell : Utility := fun arguments => do
  if arguments.isEmpty then
    printVariables [] ((← get).bindings.filter fun v => v.value.isSome)
  else
    match ← takeOptions (arguments.length + 1) arguments with
    | some arguments => modify fun s => { s with arguments, optionPlace := (1, 0) }
    | none => pure ()
  pure 0

/-- Takes arguments of the shell away. -/
def shift : Utility := fun arguments => do
  let n ← match arguments with
    | [] => pure 1
    | t :: _ => number t
  let s ← get
  if n > s.arguments.length then fail "can't shift that many"
  set { s with arguments := s.arguments.drop n }
  pure 0

/-- The characters of the line at the beginning of bytes, the number of bytes it takes, and whether
it has an end. Unless `raw` says otherwise, a backslash protects the character after it, and one at
the end of a line joins it to the next. -/
def takeLine (raw : Bool) : Nat → Bytes → Bytes → List (Bytes × Bool) × Nat × Bool
  | 0, run, _ | _, run, [] => ([(run.reverse, false)], 0, false)
  | fuel + 1, run, byte :: rest =>
    let plain := (run.reverse, false)
    if byte = 10 then ([plain], 1, true)
    else if byte = 92 && !raw then
      match rest with
      | [] => ([plain], 1, false)
      | 10 :: rest =>
        let (line, n, ended) := takeLine raw fuel run rest
        (line, n + 2, ended)
      | other :: rest =>
        let (line, n, ended) := takeLine raw fuel [] rest
        (plain :: ([other], true) :: line, n + 2, ended)
    else
      let (line, n, ended) := takeLine raw fuel (byte :: run) rest
      (line, n + 1, ended)

/-- The values for a number of variables in a line whose characters are marked if they are
protected. The last variable takes the rest of the line. -/
def cutLine (separators : Text) : Nat → Marked → List Text
  | 0, _ => []
  | n + 1, line =>
    let isSeparator (m : Mark) : Bool := !m.2 && separators.contains m.1
    let isSpace (m : Mark) : Bool :=
      isSeparator m && (m.1.satisfies fun c => c = ' ' || c = '\t' || c = '\n')
    let line := line.dropWhile isSpace
    let field := line.takeWhile fun m => !isSeparator m
    let after := (line.drop field.length).dropWhile isSpace
    let after := match after with
      | m :: rest => if isSeparator m then rest.dropWhile isSpace else after
      | [] => []
    if n = 0 then
      let whole := (line.reverse.dropWhile isSpace).reverse
      [Marked.text (if after.isEmpty then field else whole)]
    else Marked.text field :: cutLine separators n after

/-- Reads a line of the input into variables. -/
def read : Utility := fun arguments => do
  let (letters, operands) ← options "rp" arguments
  let names := if letters.contains 'p' then operands.drop 1 else operands
  if names.isEmpty then fail "arg count"
  let s ← get
  let input := s.unread 0
  let (runs, n, ended) := takeLine (letters.contains 'r') (input.length + 1) [] input
  set (s.afterReading 0 n)
  let line : Marked := runs.flatMap fun (bytes, isProtected) =>
    Marked.ofText isProtected (Utf8.decodeLossless bytes)
  for (name, value) in names.zip (cutLine s.separators names.length line) do
    if !isName name then fail (name ++ ": bad variable name")
    assign name value
  pure (if ended then 0 else 1)

/-- The signals that have a name. -/
def signals : List (Text × Nat) :=
  [("EXIT", 0), ("HUP", 1), ("INT", 2), ("QUIT", 3), ("ILL", 4), ("TRAP", 5), ("ABRT", 6),
   ("BUS", 7), ("FPE", 8), ("KILL", 9), ("USR1", 10), ("SEGV", 11), ("USR2", 12), ("PIPE", 13),
   ("ALRM", 14), ("TERM", 15), ("STKFLT", 16), ("CHLD", 17), ("CONT", 18), ("STOP", 19),
   ("TSTP", 20), ("TTIN", 21), ("TTOU", 22), ("URG", 23), ("XCPU", 24), ("XFSZ", 25),
   ("VTALRM", 26), ("PROF", 27), ("WINCH", 28), ("IO", 29), ("PWR", 30), ("SYS", 31)]

/-- The most that a signal is numbered. -/
def lastSignal : Nat := 64

/-- A text of digits. -/
def isNumeral (t : Text) : Bool := !t.isEmpty && t.all fun c => c.satisfies Char.isDigit

/-- The number of a signal, from its name or its digits. -/
def signalNumber? (t : Text) : Option Nat :=
  if isNumeral t then
    let n := Text.digitsValue t
    if n ≤ lastSignal then some n else none
  else
    let upper : Text := t.map fun
      | .char c => .char c.toUpper
      | c => c
    signals.lookup upper

/-- The name of a signal. -/
def signalName (n : Nat) : Text :=
  match signals.find? (·.2 = n) with
  | some (name, _) => name
  | none => Text.ofNat n

/-- The signals that do nothing to a process that expects none. -/
def harmless : List Nat := [17, 18, 19, 20, 21, 22, 23, 28]

/-- Says what is done when signals come. -/
def trap : Utility := fun arguments => do
  let (_, operands) ← options "" arguments
  let s ← get
  match operands with
  | [] =>
    let shown (n : Nat) : Text := match s.traps.lookup n with
      | some action => "trap -- " ++ quoted action ++ " " ++ signalName n ++ "\n"
      | none => []
    write ((List.range (lastSignal + 1)).flatMap shown)
    pure 0
  | first :: rest =>
    let (action?, names) : Option Text × List Text :=
      if rest.isEmpty then (none, [first])
      else (if first = Text.ofString "-" then none else some first, rest)
    let mut status := 0
    for name in names do
      if status = 0 then
        match signalNumber? name with
        | none =>
          complain ("trap: " ++ name ++ ": bad trap")
          status := 1
        | some n =>
          modify fun s =>
            let others := s.traps.filter (·.1 != n)
            { s with traps := (action?.map fun action => (n, action)).toList ++ others }
    pure status

/-- Sends a signal to a process; only the shell and its jobs can be reached. -/
def sendSignal (signal : Nat) (target : Text) : Action Nat := do
  let s ← get
  if target.hasPrefix "%" then fail ("No such job: " ++ target)
  match Arithmetic.integer? target with
  | none => fail ("Illegal number: " ++ target)
  | some n =>
    if n = s.process || n = 0 then
      if signal = 0 then return 0
      match (s.processTraps.getD s.traps).lookup signal with
      | some action =>
        if !action.isEmpty && signal != 9 then set { s with pending := s.pending ++ [signal] }
        else if signal = 9 then throw (.killed signal)
      | none => if !harmless.contains signal then throw (.killed signal)
      pure 0
    else match s.jobs.find? fun job => (job.process : Int) = n with
      | some job =>
        let hit (j : Job) : Job :=
          if j.process = job.process && s.elapsed < j.finish then
            { j with status := 128 + signal, finish := s.elapsed }
          else j
        set { s with jobs := s.jobs.map hit }
        pure 0
      | none =>
        complainHere "No such process"
        pure 1

/-- Sends a signal to processes. -/
def kill : Utility := fun arguments => do
  let usage : Action Nat :=
    fail ("Usage: kill [-s sigspec | -signum | -sigspec] [pid | job]... or\n" ++
      "kill -l [exitstatus]")
  let send (signal : Nat) (targets : List Text) : Action Nat := do
    if targets.isEmpty then usage
    else
      let mut status := 0
      for target in targets do
        let result ← sendSignal signal target
        status := max status result
      pure status
  match arguments with
  | [] => usage
  | first :: rest =>
    if first = Text.ofString "-l" then
      match rest with
      | t :: _ =>
        let n ← number t
        write (signalName (if n > 128 then n - 128 else n) ++ "\n")
      | [] =>
        let shown (n : Nat) : Text := signalName (n + 1) ++ "\n"
        write ("0\n" ++ (List.range lastSignal).flatMap shown)
      pure 0
    else if first = Text.ofString "-s" then
      match signalNumber? (rest.headD []) with
      | some signal => send signal (rest.drop 1)
      | none => fail ("invalid signal number or name: " ++ rest.headD [])
    else if first = Text.ofString "--" then send 15 rest
    else match first with
      | .char '-' :: name =>
        match signalNumber? name with
        | some signal => send signal rest
        | none => fail (illegal '-' (name.take 1))
      | _ => send 15 arguments

/-- Waits for processes that run beside the script. -/
def wait : Utility := fun arguments => do
  let reach (time : Nat) : Action Unit := do sleep (time - (← get).elapsed)
  match arguments with
  | [] =>
    for job in (← get).jobs do reach job.finish
    pure 0
  | targets =>
    let mut status := 0
    for target in targets do
      match (← get).jobs.find? fun job => Text.ofNat job.process = target with
      | some job =>
        reach job.finish
        if job.status > 128 && job.status != 130 && job.status != 141 then
          complain (deathOf (job.status - 128))
        status := job.status
      | none => status := 127
    pure status
where
  /-- What is said of a process that a signal has ended. -/
  deathOf (signal : Nat) : Text :=
    match signal with
    | 1 => "Hangup"
    | 3 => "Quit"
    | 4 => "Illegal instruction"
    | 6 => "Aborted"
    | 8 => "Floating point exception"
    | 9 => "Killed"
    | 10 => "User defined signal 1"
    | 11 => "Segmentation fault"
    | 12 => "User defined signal 2"
    | 14 => "Alarm clock"
    | 15 => "Terminated"
    | n => "Signal " ++ Text.ofNat n

/-- Shows or sets the permissions that new files do not get. -/
def umask : Utility := fun arguments => do
  let (letters, operands) ← options "S" arguments
  let s ← get
  match operands with
  | [] =>
    let digit (n : Nat) : Nat := s.mask / Nat.pow 8 n % 8
    let right (isGiven : Bool) (letter : Char) : Text := if isGiven then [.char letter] else []
    let rights (n : Nat) : Text :=
      right (n / 4 % 2 = 0) 'r' ++ right (n / 2 % 2 = 0) 'w' ++ right (n % 2 = 0) 'x'
    if letters.contains 'S' then
      write ("u=" ++ rights (digit 2) ++ ",g=" ++ rights (digit 1) ++ ",o=" ++ rights (digit 0) ++
        "\n")
    else write ("0" ++ Text.ofNat (digit 2) ++ Text.ofNat (digit 1) ++ Text.ofNat (digit 0) ++ "\n")
    pure 0
  | t :: _ =>
    if t.all isOctal then
      set { s with mask := Arithmetic.digitsValue 8 t % 512 }
      pure 0
    else if (t.head?.map fun c => c.satisfies Char.isDigit).getD false then
      fail ("Illegal number: " ++ t)
    else pure 0

/-- Takes the next option from arguments. -/
def takeOption : Utility := fun arguments => do
  match arguments with
  | letters :: name :: given =>
    let s ← get
    let index := (((s.value? "OPTIND").bind Arithmetic.integer?).getD 1).toNat
    let taken := if index = s.optionPlace.1 then s.optionPlace.2 else 0
    let place := if taken = 0 then index else index - 1
    let arguments := if given.isEmpty then s.arguments else given
    let word := (arguments[place - 1]?).getD []
    let quiet := letters.hasPrefix ":"
    let settle (index taken : Nat) (value : Text) (argument? : Option Text) (status : Nat) :
        Action Nat := do
      match argument? with
      | some argument => assign "OPTARG" argument
      | none => modify fun s => { s with bindings := s.bindings.filter (·.name != Text.ofString "OPTARG") }
      modify fun s => { s with optionPlace := (index, taken) }
      assign "OPTIND" (Text.ofNat index)
      assign name value
      pure status
    let argument? := s.value? "OPTARG"
    if taken = 0 && (word.take 1 != Text.ofString "-" || word.length < 2) then
      settle place 0 "?" argument? 1
    else if taken = 0 && word = Text.ofString "--" then settle (place + 1) 0 "?" argument? 1
    else
      let taken := taken + 1
      let rest := word.drop (taken + 1)
      let next := place + 1
      let left := if rest.isEmpty then 0 else taken
      match word[taken]? with
      | none => settle place 0 "?" argument? 1
      | some c =>
        match (letters.dropWhile (· != c)), c with
        | [], _ | _, .char ':' =>
          if quiet then settle next left "?" (some [c]) 0
          else
            complain (illegal '-' [c])
            settle next left "?" none 0
        | _ :: .char ':' :: _, _ =>
          if !rest.isEmpty then settle (place + 1) 0 [c] (some rest) 0
          else match arguments[place]? with
            | some argument => settle (place + 2) 0 [c] (some argument) 0
            | none =>
              if quiet then settle (place + 1) 0 ":" (some [c]) 0
              else
                complain ("No arg for -" ++ c :: " option")
                settle (place + 1) 0 "?" none 0
        | _, _ => settle next left [c] (some []) 0
  | _ => fail "Usage: getopts optstring var [arg]"

/-- Shows or makes texts that stand for words. -/
def makeAlias : Utility := fun arguments => do
  let shown (name value : Text) : Text := name ++ "=" ++ quoted value ++ "\n"
  if arguments.isEmpty then
    write ((← get).aliases.flatMap fun (name, value) => shown name value)
  let mut status := 0
  for argument in arguments do
    match Text.cut (.char '=') argument with
    | (name, some value) => modify fun s => { s with aliases := s.aliases.set name value }
    | (name, none) =>
      match (← get).aliases.get? name with
      | some value => write (shown name value)
      | none =>
        complain ("alias: " ++ name ++ " not found")
        status := 1
  pure status

/-- Takes texts that stand for words away. -/
def removeAlias : Utility := fun arguments => do
  let (letters, operands) ← options "a" arguments
  if letters.contains 'a' then modify fun s => { s with aliases := [] }
  let mut status := 0
  for name in operands do
    if ((← get).aliases.get? name).isNone then
      complain ("unalias: " ++ name ++ " not found")
      status := 1
    modify fun s => { s with aliases := s.aliases.filter (·.1 != name) }
  pure status

/-- Ends the script or a function. -/
def leaveWith (stop : Nat → Stop) : Utility := fun arguments => do
  match arguments with
  | [] => throw (stop (← get).status)
  | t :: _ => throw (stop ((← number t) % 256))

/-- Leaves loops, if there are any. -/
def leaveLoops (stop : Nat → Stop) : Utility := fun arguments => do
  let n ← match arguments with
    | [] => pure 1
    | t :: _ => number t
  if n = 0 then fail ("Illegal number: " ++ arguments.headD [])
  match min n (← get).loops with
  | 0 => pure 0
  | n => throw (stop n)

/-- Does nothing. -/
def succeed : Utility := fun _ => pure 0

/-- Does nothing, but not well. -/
def refuse : Utility := fun _ => pure 1

/-- Writes the time that was spent, of which none is counted. -/
def times : Utility := fun _ => do
  write "0m0.000000s 0m0.000000s\n0m0.000000s 0m0.000000s\n"
  pure 0

/-- The commands of the shell that run no other command. -/
def table : List (Text × Utility) :=
  let named : List (String × Utility) :=
    [(":", succeed), ("[", bracket), ("alias", makeAlias), ("bg", succeed),
     ("break", leaveLoops .leave), ("cd", changeDirectory), ("chdir", changeDirectory),
     ("continue", leaveLoops .again), ("echo", echo), ("exit", leaveWith .exit),
     ("export", exportVariables), ("false", refuse), ("fg", succeed), ("getopts", takeOption),
     ("hash", succeed), ("jobs", succeed), ("kill", kill), ("local", localVariables),
     ("printf", printf), ("pwd", printDirectory), ("read", read), ("readonly", fixVariables),
     ("return", leaveWith .back), ("set", setShell), ("shift", shift), ("test", test),
     ("times", times), ("trap", trap), ("true", succeed), ("ulimit", succeed), ("umask", umask),
     ("unalias", removeAlias), ("unset", unset), ("wait", wait)]
  named.map fun (name, utility) => (Text.ofString name, utility)

/-- The commands of the shell that run other commands. -/
def runningCommands : List Text := [".", "command", "eval", "exec", "type"].map Text.ofString

/-- The commands of the shell whose arguments may be assignments. -/
def assigningCommands : List Text := ["alias", "export", "local", "readonly"].map Text.ofString

/-- The name is that of a command of the shell. -/
def isControl (name : Text) : Bool := (table.lookup name).isSome || runningCommands.contains name

end Control

end ProviderKit.Shell
