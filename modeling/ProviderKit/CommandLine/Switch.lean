import ProviderKit.Text.Basic

/-!
# Switches and tasks

The options that a command line may give, and the tasks that it may name. Options for the whole run
come before the task, and each task has a few of its own.
-/

namespace ProviderKit.CommandLine

/-- What an option asks for. -/
inductive Switch where
  | version
  | directory
  | retain
  | noColor
  | quiet
  | verbose
  | help
deriving DecidableEq, Inhabited

namespace Switch

/-- The spelling of an option, which starts with two dashes. -/
def name : Switch → Text
  | version => "--version"
  | directory => "--directory"
  | retain => "--retain"
  | noColor => "--no-color"
  | quiet => "--quiet"
  | verbose => "--verbose"
  | help => "--help"

/-- The letter that is short for an option. -/
def letter? : Switch → Option Char
  | directory => some 'C'
  | quiet => some 'q'
  | verbose => some 'v'
  | version | retain | noColor | help => none

/-- The option has a value. -/
def takesValue : Switch → Bool
  | directory => true
  | version | retain | noColor | quiet | verbose | help => false

/-- The option is answered at once, before anything else is looked at. -/
def isEager : Switch → Bool
  | version | help => true
  | directory | retain | noColor | quiet | verbose => false

/-- What the help says about an option. -/
def summary : Switch → Text
  | version => "Show version and exit."
  | directory => "Provider project directory. [default: current directory]"
  | retain => "Skip deleting the temporary build directory."
  | noColor => "Disable color output."
  | quiet => "Suppress non-essential output."
  | verbose => "Enable debug output."
  | help => "Show this message and exit."

/-- The options that may come before the task. -/
def forAll : List Switch := [version, directory, retain, noColor, quiet, verbose, help]

end Switch

/-- What the program can do. -/
inductive Task where
  /-- Writes the declarations of a schema. -/
  | generate
  /-- Builds the package. -/
  | build
  /-- Builds the package and installs it. -/
  | install
deriving DecidableEq, Inhabited

namespace Task

/-- The word for a task. -/
def word : Task → Text
  | generate => "generate"
  | build => "build"
  | install => "install"

/-- All tasks. -/
def all : List Task := [generate, build, install]

/-- The task that a word names. -/
def ofWord? (t : Text) : Option Task := all.find? fun task => task.word = t

/-- The options of a task. -/
def switches : Task → List Switch
  | generate => [.help]
  | build | install => [.retain, .help]

/-- What the help says about a task. -/
def summary : Task → Text
  | generate => "Generate provider types from the schema."
  | build => "Build the provider package to ./dist."
  | install => "Build the provider and install it locally."

end Task

end ProviderKit.CommandLine
