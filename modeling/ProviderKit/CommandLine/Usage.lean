import ProviderKit.CommandLine.Switch
import ProviderKit.Number.Numeral
import ProviderKit.Settings
import ProviderKit.Text.Quoted

/-!
# Usage

What a user is told who asks for help, or whose command line cannot be understood.
-/

namespace ProviderKit.CommandLine

/-- Why a command line cannot be understood. -/
inductive UsageFault where
  | noSuchOption (name : Text)
  | noSuchTask (name : Text)
  | valueMissing (option : Text)
  | valueUnwanted (option : Text)
  /-- What is given as a directory is a file. -/
  | directoryIsFile (given : Text)
  | extraArguments (first : Text) (more : List Text)
deriving DecidableEq

namespace UsageFault

/-- The fault in words. -/
def message : UsageFault → Text
  | noSuchOption name => "No such option " ++ name.quoted ++ "."
  | noSuchTask name => "No such command " ++ name.quoted ++ "."
  | valueMissing option => "Option " ++ option.quoted ++ " requires an argument."
  | valueUnwanted option => "Option " ++ option.quoted ++ " does not take a value."
  | directoryIsFile given =>
    "Invalid value for '--directory' / '-C': Directory " ++ given.quoted ++ " is a file."
  | extraArguments first more =>
    (if more.isEmpty then "Got unexpected extra argument (" else "Got unexpected extra arguments (")
      ++ Text.join " " (first :: more) ++ ")"

/-- The usage is shown together with the fault. A fault about the value of an option is told
alone. -/
def showsUsage : UsageFault → Bool
  | valueMissing _ | valueUnwanted _ => false
  | noSuchOption _ | noSuchTask _ | directoryIsFile _ | extraArguments .. => true

end UsageFault

/-- The words that call the program, or a task of it. -/
def callOf : Option Task → Text
  | none => programName
  | some task => programName ++ " " ++ task.word

/-- What stands before a call. -/
def usageMark : Text := "Usage: "

/-- The words that may follow a call. -/
def wordsAfter : Option Task → List Text
  | none => ["[OPTIONS]", "[COMMAND]", "[ARGS]..."]
  | some _ => ["[OPTIONS]"]

/-- The most columns that a usage takes, in an environment that may give the width of the terminal
in a variable: two less than that, but neither less than fifty nor more than seventy-eight. -/
def usageWidth (environment : Environment) : Nat :=
  let columns := match (environment.get "COLUMNS").toChars?.bind (Numeral.int? 10) with
    | some (.ofNat (n + 1)) => n + 1
    | _ => 80
  max (min columns 80 - 2) 50

/-- Blanks, as many as are asked for. -/
def blanks (n : Nat) : Text := List.replicate n (.char ' ')

/-- A new line that starts with blanks. -/
def lineStart (indent : Nat) : Text := .char '\n' :: blanks indent

/-- Words in lines of a width. The line being filled already takes `used` columns, and `fresh` says
that no word of it stands in it yet; further lines are indented. -/
def fillWords (width indent : Nat) : Nat → Bool → List Text → Text
  | _, _, [] => []
  | used, fresh, word :: words =>
    let gap := if fresh then 0 else 1
    if fresh || used + gap + word.length ≤ width then
      blanks gap ++ word ++
        fillWords width indent (used + gap + word.length) false words
    else
      lineStart indent ++ word ++
        fillWords width indent (indent + word.length) false words

/-- How to call the program, or a task of it. The words that may follow the call stand behind it and
below each other, or, where too little room is left behind the call, in lines of their own. -/
def usageLine (width : Nat) (task : Option Task) : Text :=
  let call := usageMark ++ callOf task ++ " "
  if call.length + 20 ≤ width then
    call ++ fillWords width call.length call.length true (wordsAfter task)
  else
    let indent := usageMark.length + 4
    call ++ lineStart indent ++ fillWords width indent indent true (wordsAfter task)

/-- The text without the sequences that give commands to a terminal. -/
def withoutControlSequences : Nat → Text → Text
  | 0, t => t
  | _, [] => []
  | fuel + 1, .char '\x1b' :: .char '[' :: t =>
    let rest := t.dropWhile fun c => c.satisfies fun c => c.isDigit || c = ';' || c = '?'
    match rest with
    | c :: after =>
      if c.satisfies Char.isAlpha then withoutControlSequences fuel after
      else .char '\x1b' :: .char '[' :: withoutControlSequences fuel t
    | [] => .char '\x1b' :: .char '[' :: withoutControlSequences fuel t
  | fuel + 1, c :: t => c :: withoutControlSequences fuel t

/-- What the user is told about a fault, in a usage of the given width. -/
def UsageFault.text (width : Nat) (task : Option Task) (fault : UsageFault) : Text :=
  let usage : Text :=
    if fault.showsUsage then
      usageLine width task ++ "\nTry '" ++ callOf task ++ " --help' for help.\n\n"
    else []
  let t := usage ++ "Error: " ++ fault.message ++ "\n"
  withoutControlSequences t.length t

/-- The text with blanks after it, up to a width. -/
def padded (width : Nat) (t : Text) : Text :=
  t ++ blanks (width - t.length)

/-- A line of the help about one thing. -/
def helpLine (name summary : Text) : Text := "  " ++ padded 24 name ++ summary ++ "\n"

/-- How an option is shown in the help. -/
def switchName (switch : Switch) : Text :=
  let short : Text := match switch.letter? with
    | some letter => "-" ++ Text.ofChars [letter] ++ ", "
    | none => []
  let value : Text := if switch.takesValue then " PATH" else []
  short ++ switch.name ++ value

/-- The help on the program, or on a task of it. -/
def help (width : Nat) (task : Option Task) : Text :=
  let summary : Text := match task with
    | none => "Build helpers for NodeJS Pulumi providers."
    | some task => task.summary
  let switches := match task with
    | none => Switch.forAll
    | some task => task.switches
  let tasks : Text := match task with
    | none => "\nCommands:\n" ++ Task.all.flatMap fun task => helpLine task.word task.summary
    | some _ => []
  usageLine width task ++ "\n\n  " ++ summary ++ "\n\nOptions:\n" ++
    (switches.flatMap fun switch => helpLine (switchName switch) switch.summary) ++ tasks

end ProviderKit.CommandLine
