import ProviderKit.Surroundings

/-!
# Settings

What a run is asked to do, settled once at its start: the project's directory, whether the staging
directory is kept, the release it builds, the plugin host, and the variables that tools start with.
-/

namespace ProviderKit

/-- The settings of a run. -/
structure Settings where
  directory : Path
  retain : Bool := false
  releaseReference : Option Text := none
  hostRoot : Path
  environment : Environment := []

/-- The variable that names the release. -/
def releaseVariable : Text := "GITHUB_REF"

/-- The variable that names the root of the plugin host. -/
def hostVariable : Text := "PULUMI_HOME"

namespace Settings

variable [Interpreter]

/-- The root of the plugin host: what the environment says, or its usual place at home. An empty
value says nothing. -/
def resolveHost (s : Surroundings) (disk : Disk) (environment : Environment) :
    Except Failure Path := do
  let given := environment.get hostVariable
  if given.isEmpty then s.resolve disk ((← s.home).child ".pulumi")
  else s.resolve disk (← s.expandHome (.ofText given))

/-- The settings for a directory, by default the one that the run stands in, and an environment, by
default that of the run. -/
def resolve (s : Surroundings) (disk : Disk) (directory : Option Path) (retain : Bool)
    (given : Option Environment) : Except Failure Settings := do
  let environment := given.getD s.environment
  let directory ← s.resolve disk (directory.getD s.workingDirectory)
  let hostRoot ← resolveHost s disk environment
  pure { directory, retain, releaseReference := environment.get? releaseVariable, hostRoot,
         environment }

end Settings

/-- The name of the program. -/
def programName : Text := "provider-scripts"

/-- The version of the program. -/
def programVersion : Text := "0.3.0"

namespace Surroundings

/-- The system keeps the data of programs where the XDG rules say. -/
def followsXdg (system : Text) : Bool := system = Text.ofString "Linux" || system.hasSuffix "BSD"

/-- Where the program keeps its data on a given system. -/
def dataDirectory (s : Surroundings) (system : Text) : Except Failure Path := do
  if followsXdg system then
    let given := s.environment.get "XDG_DATA_HOME"
    let base ← if given.isEmpty then (fun home => (home.child ".local").child "share") <$> s.home
      else pure (.ofText given)
    pure (base.child programName)
  else pure ((← s.home).child ("." ++ programName))

/-- Where the program keeps its data, made if it is missing. -/
def makeDataDirectory [Interpreter] (s : Surroundings) (system : Text) (disk : Disk) :
    Except Failure Path × Disk :=
  match s.dataDirectory system with
  | .error failure => (.error failure, disk)
  | .ok path =>
    match disk.makeDirectories true (s.absolute path) with
    | (.ok (), disk) => (.ok path, disk)
    | (.error fault, disk) => (.error (.disk fault), disk)

end Surroundings

end ProviderKit
