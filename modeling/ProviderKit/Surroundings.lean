import ProviderKit.Disk.Real
import ProviderKit.Failure

/-!
# Surroundings of a run

What a run finds around it when it starts: the variables of its environment, the directory that it
stands in, the homes of users, and the random names that it may give to temporary entries. Where
those go follows from the rest.
-/

namespace ProviderKit

/-- Variables and their values. -/
abbrev Environment := List (Text × Text)

namespace Environment

/-- The value of a variable. -/
def get? (name : Text) (environment : Environment) : Option Text := environment.lookup name

/-- The value of a variable, empty if it is not set. -/
def get (name : Text) (environment : Environment) : Text := (environment.get? name).getD []

/-- The variables with one more; a variable already set keeps its place and gets the new value. -/
def set (name value : Text) : Environment → Environment
  | [] => [(name, value)]
  | (n, v) :: rest => if n = name then (n, value) :: rest else (n, v) :: set name value rest

/-- The variables of the first environment, with those of the second set on top. -/
def overlay (base overrides : Environment) : Environment :=
  overrides.foldl (fun environment (name, value) => environment.set name value) base

end Environment

/-- What a run finds around it. -/
structure Surroundings where
  environment : Environment := []
  /-- Where the run stands; this path leads through no link. -/
  workingDirectory : Path
  /-- The home of the user of the run, as the machine knows it. -/
  ownHome : Option Text := none
  /-- The homes of the users of the machine. -/
  homes : List (Text × Text) := []
  /-- The random parts of names, in the order in which they are tried. -/
  draws : List Text := []

namespace Surroundings

/-- A path as seen from where the run stands. -/
def absolute (s : Surroundings) (path : Path) : Path := s.workingDirectory.join path

/-- The variables that say where temporary entries go. -/
def temporaryVariables : List Text := ["TMPDIR", "TEMP", "TMP"]

/-- Where temporary entries go if no variable says so. -/
def usualTemporaryDirectories : List Text := ["/tmp", "/var/tmp", "/usr/tmp"]

/-- The directories that are tried in turn for temporary entries: those that the environment names,
the usual ones, and the one that the run stands in. -/
def temporaryDirectories (s : Surroundings) : List Path :=
  let named := (temporaryVariables.map s.environment.get).filter fun t => !t.isEmpty
  (named ++ usualTemporaryDirectories).map (fun t => s.absolute (.ofText t)) ++
    [s.workingDirectory]

/-- The text without the slashes at its end; a text of slashes only is one slash. -/
def withoutEndSlashes (t : Text) : Text :=
  let stem := (t.reverse.dropWhile (· = .char '/')).reverse
  if stem.isEmpty then "/" else stem

/-- The home that a name beginning with a tilde stands for: the run's own, or that of a user. -/
def homeOf (s : Surroundings) (user : Text) : Except Failure (Option Text) :=
  if user.isEmpty then
    match s.environment.get? "HOME" with
    | some home => .ok (some (withoutEndSlashes home))
    | none => .ok (s.ownHome.map withoutEndSlashes)
  else if !Disk.isEncodable user then .error (.disk .unencodable)
  else if Disk.hasNull user then .error (.disk .nullCharacter)
  else .ok ((s.homes.lookup user).map withoutEndSlashes)

/-- A path with a tilde at its beginning replaced by the home that it stands for. -/
def expandHome (s : Surroundings) (path : Path) : Except Failure Path :=
  match path.root, path.names with
  | .relative, (.char '~' :: user) :: names => do
    match ← s.homeOf user with
    | none => throw .unknownHome
    | some home =>
      if home.head? = some (.char '~') then throw .unknownHome
      let home := Path.ofText home
      pure ⟨home.root, home.names ++ names⟩
  | _, _ => .ok path

/-- The home of the user of the run. -/
def home (s : Surroundings) : Except Failure Path := s.expandHome (.ofText "~")

/-- The real path of a path, as seen from where the run stands. -/
def resolve [Interpreter] (s : Surroundings) (disk : Disk) (path : Path) : Except Failure Path :=
  match disk.resolve (s.absolute path) with
  | .ok real => .ok real
  | .error (.fault fault) => .error (.disk fault)
  | .error .loop => .error .linkLoop

end Surroundings

end ProviderKit
