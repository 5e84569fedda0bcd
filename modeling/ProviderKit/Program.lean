import ProviderKit.CommandLine.Request
import ProviderKit.Console.Basic
import ProviderKit.Install
import ProviderKit.Text.Lossless

/-!
# The program

The program does what its command line asks for and ends with an exit status: zero if all went well,
one if the command line cannot be understood or the run fails, and a status of its own if the user
asked it to stop. A problem is told to the user; any other failure is written to a crash log, and
the user is told where that is.
-/

namespace ProviderKit

/-- What the program is given when it starts. -/
structure Program where
  surroundings : Surroundings
  /-- The name of the operating system. -/
  system : Text
  /-- The time of the start, as it is written in the names of logs. -/
  moment : Text
  /-- What runs the tools, which start with the given variables. -/
  runner : Environment → Runner
  /-- What is recorded of the tools. -/
  records : Environment → Records := fun _ _ _ => []
  /-- The emoji that a code stands for. -/
  emoji : Text → Option Text := fun _ => none

/-- What a run of the program came to. -/
structure Conclusion where
  /-- The exit status, or a failure that could not even be written to a log. -/
  exit : Except Failure Int
  /-- The failure that was written to a log. -/
  crash : Option Failure := none
  console : Console
  world : World

namespace Conclusion

/-- What the run wrote. The error output writes a lone surrogate by its number. -/
def output (c : Conclusion) : Output :=
  let output := c.console.writeAll c.world.messages
  { output with error := output.error.escapeSurrogates }

end Conclusion

/-- The exit status of a run that went well. -/
def successStatus : Int := 0

/-- The exit status of a run that the user cancelled. -/
def cancelledStatus : Int := 130

namespace Program

variable [Interpreter]

/-- A build with the given settings. -/
def build (p : Program) (settings : Settings) : Build :=
  { settings
    runner := p.runner settings.environment
    records := p.records settings.environment
    temporaryDirectories := p.surroundings.temporaryDirectories
    draws := p.surroundings.draws }

/-- Does a task. -/
def carryOut (p : Program) (settings : Settings) : CommandLine.Task → Run Unit
  | .generate => do
    let path ← generate p.surroundings.draws settings.directory
    Run.say (.success ("Generated " ++ path.name))
  | .build => do
    let artifact ← (p.build settings).run
    Run.say (.data artifact.archive.text)
  | .install => do
    let directory ← (p.build settings).install
    Run.say (.suggest ("Run `pulumi plugin ls` to confirm " ++ directory.name ++ " is available."))

/-- The settings for a run with the given options. -/
def settings (p : Program) (globals : CommandLine.Globals) : Run Settings :=
  Run.look fun disk =>
    Settings.resolve p.surroundings disk (globals.directory.map Path.ofText) globals.retain none

/-- The columns that a usage may take. -/
def usageWidth (p : Program) : Nat := CommandLine.usageWidth p.surroundings.environment

/-- Settles the settings and then does what the words after a task ask for. -/
def answerTask (p : Program) (globals : CommandLine.Globals) (task : CommandLine.Task)
    (words : List Text) : Run Int := do
  let settings ← p.settings globals
  match CommandLine.TaskRequest.read task words with
  | .error fault =>
    Run.say (.notice (fault.text p.usageWidth (some task)))
    pure failureStatus
  | .ok .help =>
    Run.say (.page (CommandLine.help p.usageWidth (some task)))
    pure successStatus
  | .ok (.perform retain) =>
    p.carryOut { settings with retain := settings.retain || retain } task
    pure successStatus

/-- Does what a command line asks for. -/
def answer (p : Program) : CommandLine.Request → Run Int
  | .version => do
    Run.say (.data (programName ++ " " ++ programVersion))
    pure successStatus
  | .help => do
    Run.say (.page (CommandLine.help p.usageWidth none))
    pure successStatus
  | .nothing _ => do
    Run.say (.page (CommandLine.help p.usageWidth none))
    Run.say (.notice "\n")
    pure failureStatus
  | .perform globals task words => p.answerTask globals task words

/-- Says why a command line is not followed. -/
def refuse (p : Program) : CommandLine.Refusal → Run Int
  | .usage fault => do
    Run.say (.notice (fault.text p.usageWidth none))
    pure failureStatus
  | .failure failure => Run.fail failure

/-- The console for the given options. -/
def consoleFor (p : Program) (globals : CommandLine.Globals) : Except Failure Console := do
  let console ← Console.make globals.noColor globals.quiet globals.verbose
    p.surroundings.environment
  pure { console with emoji := p.emoji }

/-- The console of a run without options. -/
def usualConsole (p : Program) : Except Failure Console := p.consoleFor {}

/-- The console that a command line asks for. The version needs none, and a page of help only one
for its width. -/
def console (p : Program) : CommandLine.Request → Except Failure Console
  | .nothing globals | .perform globals _ _ => p.consoleFor globals
  | .version => .ok {}
  | .help => do
    Console.pageWidthOf p.surroundings.environment
    pure {}

/-- Writes a failure to a new log and gives its path. -/
def writeLog (p : Program) (failure : Failure) : Run Path := do
  let s := p.surroundings
  let data ← Run.step fun disk => s.makeDataDirectory p.system disk
  let logs := data.child "logs"
  Run.requests fun disk => disk.makeDirectories true (s.absolute logs)
  let log := logs.child ("crash-" ++ p.moment ++ ".log")
  Run.request fun disk =>
    disk.write (s.absolute log) (.bytes (Utf8.encodeLossless (failure.wording ++ "\n")))
  pure log

/-- Writes a failure to a log and says where that is. -/
def reportCrash (p : Program) (failure : Failure) : Run Int := do
  let log ← p.writeLog failure
  Run.say (.error ("Unexpected error. Debug log: " ++ log.text))
  pure failureStatus

/-- What a run came to, from its outcome. Without a console nothing can be told to the user: the
reason why there is none is what the run then ends with. -/
def conclude (p : Program) (console : Except Failure Console) (outcome : Except Failure Int)
    (world : World) : Conclusion :=
  let told (crash : Option Failure) (outcome : Except Failure Int) (world : World) : Conclusion :=
    match console, outcome with
    | .ok console, exit => { exit, crash, console, world }
    | .error noConsole, .ok _ => { exit := .error noConsole, console := {}, world }
    | .error _, .error other => { exit := .error other, console := {}, world }
  match outcome with
  | .ok status => { exit := .ok status, console := console.toOption.getD {}, world }
  | .error (.problem problem) =>
    let (_, world) := (Run.say (.error problem.message)).perform world
    told none (.ok problem.report.exitStatus) world
  | .error .interrupted =>
    { exit := .ok cancelledStatus, console := console.toOption.getD {}, world }
  | .error failure =>
    match (p.reportCrash failure).perform world with
    | (.ok status, world) => told (some failure) (.ok status) world
    | (.error other, world) => told none (.error other) world

/-- Runs the program on a command line. -/
def run (p : Program) (words : List Text) (disk : Disk) : Conclusion :=
  match CommandLine.Request.read p.surroundings disk words with
  | .error refusal =>
    let (outcome, world) := (p.refuse refusal).perform { disk }
    p.conclude p.usualConsole outcome world
  | .ok request =>
    let console := p.console request
    let work : Run Int := match console with
      | .ok _ => p.answer request
      | .error noConsole => Run.fail noConsole
    let (outcome, world) := work.perform { disk }
    p.conclude console outcome world

end Program

end ProviderKit
