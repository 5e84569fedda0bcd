import ProviderKit.CommandLine.Usage
import ProviderKit.Failure
import ProviderKit.Process.Lookup

/-!
# What a command line asks for

A command line is read word by word. A word that starts with a dash gives options: one by its name,
with a value after an equals sign or in the next word, or several by their letters, of which the
last may have its value behind it. Two dashes alone end the options. The part before the task is
understood first, and the options of the task only when the task is about to start.
-/

namespace ProviderKit.CommandLine

/-! ## Options as they are given -/

/-- An option with its value, which is empty if it has none. -/
structure Given where
  switch : Switch
  value : Text := []
deriving DecidableEq

/-- An option, as it was called, that still needs the next word as its value. -/
structure Pending where
  switch : Switch
  name : Text

/-- What the letters of a word give. -/
def readLetters (switches : List Switch) :
    Text → Except UsageFault (List Given × Option Pending)
  | [] => .ok ([], none)
  | c :: rest =>
    match switches.find? fun switch => switch.letter?.map CodePoint.char = some c with
    | none => .error (.noSuchOption [.char '-', c])
    | some switch =>
      if switch.takesValue then
        if rest.isEmpty then .ok ([], some ⟨switch, [.char '-', c]⟩)
        else .ok ([⟨switch, rest⟩], none)
      else do
        let (given, pending) ← readLetters switches rest
        pure (⟨switch, []⟩ :: given, pending)

/-- What a word that starts with a dash gives. -/
def readOptions (switches : List Switch) (word : Text) :
    Except UsageFault (List Given × Option Pending) :=
  let (name, value?) := Text.cut (.char '=') word
  match switches.find? (·.name = name) with
  | some switch =>
    match switch.takesValue, value? with
    | true, some value => .ok ([⟨switch, value⟩], none)
    | true, none => .ok ([], some ⟨switch, name⟩)
    | false, some _ => .error (.valueUnwanted name)
    | false, none => .ok ([⟨switch, []⟩], none)
  | none =>
    if word.hasPrefix "--" then .error (.noSuchOption name) else readLetters switches (word.drop 1)

/-- The word gives options. -/
def isOptionWord (word : Text) : Bool := word.hasPrefix "-" && word.length > 1

/-- The options that words give, and the words that are left. If `mixed`, options may come after
other words; otherwise the first other word ends them. -/
def readGiven (switches : List Switch) (mixed : Bool) :
    List Text → Except UsageFault (List Given × List Text)
  | [] => .ok ([], [])
  | word :: words =>
    if word = Text.ofString "--" then .ok ([], words)
    else if isOptionWord word then
      match readOptions switches word, words with
      | .error fault, _ => .error fault
      | .ok (given, none), words =>
        (readGiven switches mixed words).map fun (more, left) => (given ++ more, left)
      | .ok (given, some pending), value :: words =>
        (readGiven switches mixed words).map fun (more, left) =>
          (given ++ ⟨pending.switch, value⟩ :: more, left)
      | .ok (_, some pending), [] => .error (.valueMissing pending.name)
    else if mixed then
      (readGiven switches mixed words).map fun (given, left) => (given, word :: left)
    else .ok ([], word :: words)

/-- An option is among those given. -/
def isGiven (switch : Switch) (given : List Given) : Bool := given.any (·.switch = switch)

/-- The value given last for an option. -/
def lastValue? (switch : Switch) (given : List Given) : Option Text :=
  (given.reverse.find? (·.switch = switch)).map (·.value)

/-- The first of the given options that is answered at once. -/
def firstEager? (given : List Given) : Option Switch :=
  (given.find? (·.switch.isEager)).map (·.switch)

/-! ## Requests -/

/-- The options for the whole run. -/
structure Globals where
  directory : Option Text := none
  retain : Bool := false
  noColor : Bool := false
  quiet : Bool := false
  verbose : Bool := false
deriving DecidableEq

namespace Globals

/-- The options for the whole run, from those given. -/
def ofGiven (given : List Given) : Globals :=
  { directory := lastValue? .directory given
    retain := isGiven .retain given
    noColor := isGiven .noColor given
    quiet := isGiven .quiet given
    verbose := isGiven .verbose given }

end Globals

/-- What a command line asks for. -/
inductive Request where
  | version
  | help
  /-- No task is named. -/
  | nothing (globals : Globals)
  /-- A task with the words after it. -/
  | perform (globals : Globals) (task : Task) (words : List Text)

/-- Why a command line is not followed. -/
inductive Refusal where
  | usage (fault : UsageFault)
  | failure (failure : Failure)

/-- The given directory may be one: it is not a file. Whether it is there at all does not matter. -/
def checkDirectory (s : Surroundings) (disk : Disk) (given : Text) : Except Refusal Unit :=
  match disk.fileAt s.workingDirectory given with
  | .ok _ => .error (.usage (.directoryIsFile given))
  | .error fault => if fault.isPathText then .error (.failure (.disk fault)) else .ok ()

/-- The options before the task, checked, and the words that are left; an option that is answered at
once is the answer. -/
def readGlobals (s : Surroundings) (disk : Disk) (words : List Text) :
    Except Refusal (Option Switch × Globals × List Text) :=
  match readGiven Switch.forAll false words with
  | .error fault => .error (.usage fault)
  | .ok (given, left) => do
    let globals := Globals.ofGiven given
    match firstEager? given, globals.directory with
    | some switch, _ => pure (some switch, globals, left)
    | none, some directory =>
      checkDirectory s disk directory
      pure (none, globals, left)
    | none, none => pure (none, globals, left)

/-- The request of an option that is answered at once. -/
def Request.ofEager : Switch → Request
  | .version => .version
  | .help | .directory | .retain | .noColor | .quiet | .verbose => .help

/-- What a command line asks for. Where a task should be named, a word that starts with a dash is
taken for an option once more. -/
def Request.read (s : Surroundings) (disk : Disk) (words : List Text) : Except Refusal Request := do
  match ← readGlobals s disk words with
  | (some switch, _, _) => pure (.ofEager switch)
  | (none, globals, []) => pure (.nothing globals)
  | (none, globals, name :: words) =>
    match Task.ofWord? name with
    | some task => pure (.perform globals task words)
    | none =>
      if name.hasPrefix "-" then
        if let (some switch, _, _) ← readGlobals s disk (name :: words) then
          return .ofEager switch
      throw (.usage (.noSuchTask name))

/-- What the words after a task ask for. -/
inductive TaskRequest where
  | help
  /-- The task is to be done; `retain` says that the staging directory is kept. -/
  | perform (retain : Bool)

/-- What the words after a task ask for. -/
def TaskRequest.read (task : Task) (words : List Text) : Except UsageFault TaskRequest := do
  let (given, left) ← readGiven task.switches true words
  match firstEager? given, left with
  | some _, _ => pure .help
  | none, first :: more => throw (.extraArguments first more)
  | none, [] => pure (.perform (isGiven .retain given))

end ProviderKit.CommandLine
