import ProviderKit.Failure
import ProviderKit.Json.Reader
import ProviderKit.Yaml.Reader
import ProviderKit.Schema.Shape

/-!
# Schema documents

A schema is written in JSON or in YAML. The extension of the file says which; without a telling
extension JSON is tried first and YAML after it. `Schema.load` reads, parses and checks the schema
at a path, and `Schema.find` locates the schema of a project.
-/

namespace ProviderKit

/-- The notation of a document. -/
inductive Notation where
  | json
  | yaml
  /-- JSON if it can be read as such, else YAML. -/
  | either
deriving DecidableEq, Inhabited

/-- The notation that the extension of a path asks for. -/
def Notation.ofPath (path : Path) : Notation :=
  let extension := path.extension.lowerAscii
  if extension = Text.ofString ".json" then .json
  else if extension = Text.ofString ".yaml" || extension = Text.ofString ".yml" then .yaml
  else .either

namespace Schema

variable [Interpreter]

/-- The entries of the mapping that a document holds. -/
def requireMapping : Option Value → Except Failure (List (Value × Value))
  | some (.mapping entries) => .ok entries
  | none | some .null => .error (.problem (.schemaNotMapping "empty document"))
  | some value => .error (.problem (.schemaNotMapping value.kindName))

/-- The entries of a YAML document; the reason why it is not JSON, if that was tried. -/
def readYaml (jsonReason : Option Text) (content : Text) :
    Except Failure (List (Value × Value)) :=
  match Yaml.read content with
  | .ok value => requireMapping value
  | .error .malformed => .error (.problem (.schemaNotMarkup jsonReason))
  | .error .tooDeep => .error .tooDeep
  | .error fault => .error (.yaml fault)

/-- The entries of the mapping that a document in a given notation holds. -/
def readEntries (given : Notation) (content : Text) : Except Failure (List (Value × Value)) :=
  match given with
  | .yaml => readYaml none content
  | .json | .either =>
    match Json.read content with
    | .ok json => requireMapping (some json.toValue)
    | .error failure =>
      if failure.cause = .tooDeep then .error .tooDeep
      else if !failure.isSyntax then .error .longInteger
      else if given = .json then .error (.problem (.schemaNotJson (failure.message content)))
      else readYaml (some (failure.message content)) content

/-- The schema in the text of a file. -/
def ofContent (path : Path) (content : Text) : Except Failure Schema := do
  match ofEntries (← readEntries (.ofPath path) content) with
  | .ok schema => pure schema
  | .error violations => .error (.problem (.schemaShape path violations))

/-- The schema in the file that a path leads to. -/
def load (disk : Disk) (path : Path) : Except Failure Schema := do
  if !(← orFail (disk.isFile? path)) then throw (.problem (.schemaMissing path))
  match disk.readText path with
  | .error fault => .error (.problem (.schemaUnreadable path fault))
  | .ok content => ofContent path content

/-- The names that the schema of a project can have; the first one is the usual one. -/
def usualFilename : Text := "schema.json"

/-- The other names that the schema of a project can have. -/
def otherFilenames : List Text := ["schema.yaml", "schema.yml"]

/-- The first path that leads to a file, if one does. -/
def firstFile (disk : Disk) : List Path → Except Failure (Option Path)
  | [] => .ok none
  | path :: paths => do
    if ← orFail (disk.isFile? path) then pure (some path) else firstFile disk paths

/-- The path of the schema of the project in a directory; the usual path if there is none. -/
def find (disk : Disk) (directory : Path) : Except Failure Path := do
  let candidates := (usualFilename :: otherFilenames).map directory.child
  pure ((← firstFile disk candidates).getD (directory.child usualFilename))

end Schema

end ProviderKit
