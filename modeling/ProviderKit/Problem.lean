import ProviderKit.Disk.TextFile
import ProviderKit.Report
import ProviderKit.Shape.Checked

/-!
# Problems

The foreseen reasons for which a run fails, each with what it is about. `Problem.report` is what
the user is told.
-/

namespace ProviderKit

/-- A foreseen reason for a run to fail. -/
inductive Problem where
  /-- There is no schema file at the path. -/
  | schemaMissing (path : Path)
  /-- The schema file cannot be read as text. -/
  | schemaUnreadable (path : Path) (fault : Disk.ReadFault)
  /-- The schema has to be JSON and is not. -/
  | schemaNotJson (reason : Text)
  /-- The schema is not YAML; if it might have been JSON, it is not JSON either. -/
  | schemaNotMarkup (jsonReason : Option Text)
  /-- The schema is a value of another kind than a mapping. -/
  | schemaNotMapping (kind : String)
  /-- The schema has not the shape of one. -/
  | schemaShape (path : Path) (violations : List Violation)
  /-- A resource token has no third part. -/
  | badToken (token : Text)
  /-- The project has no package file. -/
  | packageMissing (directory : Path)
  /-- The package file cannot be read as JSON. -/
  | packageUnreadable (path : Path) (reason : Text)
  /-- The package file is JSON but no object. -/
  | packageNotObject (path : Path)
  /-- The package has no name. -/
  | nameMissing
  /-- The release tag names no version. -/
  | badVersionTag (tag : Text)
  /-- The project has no plugin manifest. -/
  | manifestMissing (directory : Path)
  /-- The compiler failed. -/
  | compileFailed (program : Text) (status : Int) (output : Text)
  /-- The package manager failed. -/
  | installFailed (commandLine : Text) (status : Int) (output : Text)
  /-- A command is not on the search path. -/
  | commandNotFound (program : Text)
  /-- A command could not be started. -/
  | commandNotStarted (program : Text) (reason : Text)
  /-- A command ran for too long; the limit is in seconds, as it was written. -/
  | commandTimedOut (program : Text) (seconds : Text)
  /-- No package manager is known for the way the project locks its dependencies. -/
  | unsupportedConvention (convention : Text)
  /-- The plugin host has no directory. -/
  | hostMissing (root : Path)

/-- The name of the file that describes a package. -/
def packageFilename : Text := "package.json"

/-- The name of the file that describes a plugin. -/
def manifestFilename : Text := "PulumiPlugin.yaml"

/-- The first line of the report on a wrong shape. -/
def violationCount (n : Nat) : Text :=
  Text.ofNat n ++ (if n = 1 then " validation error" else " validation errors") ++
    " for SchemaDocument"

namespace Problem

/-- What the user is told about a problem. -/
def report : Problem → Report
  | schemaMissing path =>
    { category := .schemaRead, message := "Schema file not found: " ++ path.text }
  | schemaUnreadable path fault =>
    { category := .schemaRead
      message := "Failed to read schema file " ++ path.text ++ ": " ++ fault.message }
  | schemaNotJson reason => { category := .schemaParse, message := "Invalid JSON: " ++ reason }
  | schemaNotMarkup jsonReason =>
    let first : Text := match jsonReason with
      | none => []
      | some reason => "\n  JSON error: " ++ reason
    { category := .schemaParse
      message := "Failed to parse schema as JSON or YAML" ++ first ++ "\n  YAML error:" }
  | schemaNotMapping kind =>
    { category := .schemaParse
      message := "Schema must be a JSON/YAML object (got " ++ Text.ofString kind ++ ")" }
  | schemaShape path violations =>
    { category := .schemaParse
      message := "Invalid schema in " ++ path.text ++ ": " ++ violationCount violations.length }
  | badToken token =>
    { category := .schemaParse
      message := "Invalid resource token '" ++ token ++ "': expected 'package:module:Type'" }
  | packageMissing directory =>
    { category := .configuration
      message := packageFilename ++ " not found in " ++ directory.text }
  | packageUnreadable path reason =>
    { category := .configuration
      message := "Invalid " ++ packageFilename ++ " at " ++ path.text ++ ": " ++ reason }
  | packageNotObject path =>
    { category := .configuration
      message := "Invalid " ++ packageFilename ++ " at " ++ path.text ++ ": expected an object" }
  | nameMissing =>
    { category := .missingName, message := "name missing in " ++ packageFilename }
  | badVersionTag tag => { category := .versionTag, message := "Invalid version tag: " ++ tag }
  | manifestMissing directory =>
    { category := .configuration
      message := manifestFilename ++ " not found in " ++ directory.text }
  | compileFailed program status output =>
    .ofTool ("Compilation failed (" ++ program ++ " tsc exited with status " ++
      Text.ofInt status ++ ")") output
  | installFailed commandLine status output =>
    .ofTool (commandLine ++ " exited with status " ++ Text.ofInt status) output
  | commandNotFound program => .ofTool ("Command not found: " ++ program) []
  | commandNotStarted program reason =>
    .ofTool ("Failed to run " ++ program ++ ": " ++ reason) []
  | commandTimedOut program seconds =>
    .ofTool (program ++ " timed out after " ++ seconds ++ " seconds") []
  | unsupportedConvention convention =>
    { category := .unsupportedConvention
      message := "Package manager not implemented for lock convention: " ++ convention }
  | hostMissing root => { category := .hostNotFound, message := root.text ++ " doesn't exist" }

/-- The message of a problem's report. -/
def message (p : Problem) : Text := p.report.message

end Problem

end ProviderKit
