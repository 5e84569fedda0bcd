import ProviderKit.Process.Basic

/-!
# Looking a program up

The name of a program without a slash is looked up in the directories of the search path, in turn;
an empty element of the search path is the directory that the run stands in. A name with a slash is
the path of the program.
-/

namespace ProviderKit

/-- The variable that holds the search path. -/
def searchVariable : Text := "PATH"

/-- The search path where no variable sets one. -/
def usualSearchPath : Text := "/bin:/usr/bin"

/-- The text of a path in a directory, given as texts. -/
def entryText (directory name : Text) : Text :=
  if directory.isEmpty then name
  else if directory.getLast? = some (.char '/') then directory ++ name
  else directory ++ "/" ++ name

/-- The elements of a search path. -/
def searchElements (path : Text) : List Text := Text.split (.char ':') path

/-- The name of the program is a path. -/
def isPathText (program : Text) : Bool := program.contains (.char '/')

namespace Disk

/-- The file that a text leads to as seen from a directory. A slash at the end asks for a directory,
and so leads to no file. -/
def fileAt (disk : Disk) (directory : Path) (t : Text) : Except Fault (Bool × Content) :=
  let path := directory.join (.ofText t)
  if t.isEmpty then .error (.refused .missing path)
  else match disk.find true path with
    | .error fault => .error fault
    | .ok (_, .file mode content) =>
      if t.getLast? = some (.char '/') then .error (.refused .notDirectory path)
      else .ok (mode.isRunnable, content)
    | .ok (_, .directory) => .error (.refused .permissionDenied path)
    | .ok (_, .link _) => .error (.refused .tooManyLinks path)

/-- A text leads to a file that may be run. -/
def isRunnable (disk : Disk) (directory : Path) (t : Text) : Bool :=
  match disk.fileAt directory t with
  | .ok (executable, _) => executable
  | .error _ => false

/-- The text under which a program is found along a search path. -/
def findProgram (disk : Disk) (directory : Path) (path program : Text) : Option Text :=
  if isPathText program then
    if disk.isRunnable directory program then some program else none
  else if path.isEmpty then none
  else (searchElements path).findSome? fun element =>
    let candidate := entryText element program
    if disk.isRunnable directory candidate then some candidate else none

end Disk

namespace Surroundings

/-- The search path for a command: that of its environment, else that of the run. -/
def searchPath (s : Surroundings) (environment : Environment) : Text :=
  (environment.get? searchVariable).getD
    ((s.environment.get? searchVariable).getD usualSearchPath)

/-- The text under which a command's program is found. -/
def findProgram (s : Surroundings) (disk : Disk) (environment : Environment) (program : Text) :
    Option Text :=
  disk.findProgram s.workingDirectory (s.searchPath environment) program

end Surroundings

end ProviderKit
