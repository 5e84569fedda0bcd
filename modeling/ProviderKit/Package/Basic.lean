import ProviderKit.Problem
import ProviderKit.Shape.Checked
import ProviderKit.Failure
import ProviderKit.Json.Reader

/-!
# Packages

What the directory of a project says about its package: the name and version in the package file,
whether there are sources to compile, and how dependencies are locked.

A project locks its dependencies in one of two files, or not at all, and that decides how they are
installed. When a project has both files, the consolidated one counts.
-/

namespace ProviderKit

/-! ## Lock conventions -/

/-- How a project locks its dependencies. -/
inductive LockConvention where
  | none
  | consolidated
  | distributed
deriving DecidableEq, Inhabited

namespace LockConvention

/-- The word for a convention. -/
def word : LockConvention → String
  | none => "none"
  | consolidated => "consolidated"
  | distributed => "distributed"

/-- All conventions. -/
def all : List LockConvention := [none, consolidated, distributed]

/-- The lock file of a convention. -/
def filename? : LockConvention → Option Text
  | none => Option.none
  | consolidated => some "package-lock.json"
  | distributed => some "yarn.lock"

/-- The convention with a given word. -/
def ofWord? (t : Text) : Option LockConvention := all.find? fun c => Text.ofString c.word = t

/-- The convention that a value names. -/
def ofValue (value : Value) : Checked LockConvention :=
  let named := match value with
    | .text t => ofWord? t
    | _ => Option.none
  match named with
  | some convention => .ok convention
  | Option.none => Checked.broken (.oneOf (all.map word))

/-- The form in which messages show a convention. -/
def shown (c : LockConvention) : Text :=
  let name : Text := c.word.toUpper
  "<LockConvention." ++ name ++ ": '" ++ Text.ofString c.word ++ "'>"

end LockConvention

/-- How the dependencies of a project are installed. -/
structure InstallStrategy where
  program : Text
  args : List Text
  lockFilename : Option Text
deriving DecidableEq

namespace InstallStrategy

/-- The command as it is typed. -/
def commandLine (s : InstallStrategy) : Text := Text.join " " (s.program :: s.args)

/-- The strategies known for the conventions. -/
def standard : List (LockConvention × InstallStrategy) :=
  [(.distributed, ⟨"yarn", ["install"], LockConvention.distributed.filename?⟩),
   (.consolidated, ⟨"npm", ["ci"], LockConvention.consolidated.filename?⟩),
   (.none, ⟨"npm", ["install"], none⟩)]

/-- The strategy that a table holds for a convention. -/
def select (table : List (LockConvention × InstallStrategy)) (convention : LockConvention) :
    Except Problem InstallStrategy :=
  match table.lookup convention with
  | some strategy => .ok strategy
  | none => .error (.unsupportedConvention convention.shown)

/-- The standard strategy for the convention that a value names. -/
def ofValue (value : Value) : Except Problem InstallStrategy :=
  match LockConvention.ofValue value with
  | .ok convention => select standard convention
  | .error _ => .error (.unsupportedConvention value.quoted)

end InstallStrategy

/-- The command that compiles the sources of a project into a directory. -/
def compileCommand (convention : LockConvention) (target : Path) : Text × List Text :=
  (if convention = .distributed then "yarn" else "npx",
    ["tsc", "--noEmit", "false", "--outDir", target.text])

/-! ## What a directory says -/

/-- What is known about the package of a project. -/
structure Package where
  name : Text
  version : Text
  hasCompiledSource : Bool
  lockConvention : LockConvention
deriving DecidableEq

namespace Package

/-- The version of a package that does not say. -/
def defaultVersion : Text := "0.0.0"

/-- The name of the file that configures the compiler. -/
def compilerFilename : Text := "tsconfig.json"

/-- The members of the object that a package file holds. -/
def ofContent [Interpreter] (path : Path) (content : Text) : Except Failure (List (Text × Json)) :=
  match Json.read content with
  | .error failure =>
    if failure.cause = .tooDeep then .error .tooDeep
    else .error (.problem (.packageUnreadable path (failure.message content)))
  | .ok (.object members) => .ok members
  | .ok _ => .error (.problem (.packageNotObject path))

/-- The members of the package file of the project in a directory. -/
def load [Interpreter] (disk : Disk) (directory : Path) : Except Failure (List (Text × Json)) := do
  let path := directory.child packageFilename
  if !(← orFail (disk.isFile? path)) then throw (.problem (.packageMissing directory))
  match disk.readText path with
  | .error fault => .error (.problem (.packageUnreadable path fault.message))
  | .ok content => ofContent path content

/-- The name and the version that a package file gives. -/
def identity (members : List (Text × Json)) : Except Problem (Text × Text) :=
  match Json.lookup "name" members with
  | some (.text name) =>
    match Json.lookup "version" members with
    | some (.text version) => .ok (name, version)
    | _ => .ok (name, defaultVersion)
  | _ => .error .nameMissing

/-- How the project in a directory locks its dependencies: the first lock file found decides. -/
def lockConvention? (disk : Disk) (directory : Path) : Except Failure LockConvention := do
  let consolidated := (LockConvention.consolidated.filename?).getD []
  let distributed := (LockConvention.distributed.filename?).getD []
  if ← orFail (disk.isFile? (directory.child consolidated)) then pure .consolidated
  else if ← orFail (disk.isFile? (directory.child distributed)) then pure .distributed
  else pure .none

/-- What is known about the package in a directory. -/
def discover [Interpreter] (disk : Disk) (directory : Path) : Except Failure Package := do
  let (name, version) ← orProblem (identity (← load disk directory))
  let hasCompiledSource ← orFail (disk.isFile? (directory.child compilerFilename))
  pure ⟨name, version, hasCompiledSource, ← lockConvention? disk directory⟩

end Package

end ProviderKit
