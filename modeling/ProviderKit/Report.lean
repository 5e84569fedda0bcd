import ProviderKit.Text.Blank

/-!
# Reports

What a user is told when a run fails for a foreseen reason: the category of the problem, a message,
and the exit status of the program. The report on a failed tool also keeps what the tool printed,
and its message ends with that output unless the output is blank.
-/

namespace ProviderKit

/-- The categories of problems. -/
inductive Category where
  | general
  | configuration
  | missingName
  | schema
  | schemaRead
  | schemaParse
  | versionTag
  | command
  | unsupportedConvention
  | hostNotFound
deriving DecidableEq, Inhabited

namespace Category

/-- The category that a category is a kind of. -/
def parent? : Category → Option Category
  | general => none
  | missingName => some configuration
  | schemaRead | schemaParse => some schema
  | configuration | schema | versionTag | command | unsupportedConvention | hostNotFound =>
    some general

/-- The height of a category above the general one. -/
def depth : Category → Nat
  | general => 0
  | missingName | schemaRead | schemaParse => 2
  | configuration | schema | versionTag | command | unsupportedConvention | hostNotFound => 1

/-- At most the given number of categories upwards from a category. -/
def ancestorsWithin : Nat → Category → List Category
  | 0, category => [category]
  | n + 1, category =>
    match category.parent? with
    | none => [category]
    | some parent => category :: ancestorsWithin n parent

/-- A category and all those that it is a kind of. -/
def ancestors (category : Category) : List Category := ancestorsWithin category.depth category

end Category

/-- The exit status of a run that fails. -/
def failureStatus : Int := 1

/-- What a user is told about a problem. -/
structure Report where
  category : Category
  message : Text
  exitStatus : Int := failureStatus
  output : Text := []
deriving DecidableEq

/-- A summary, with the output of a tool on the lines after it. -/
def withToolOutput (summary output : Text) : Text :=
  if output.isBlank then summary else summary ++ "\n" ++ output.trimEnd

/-- The report on a tool that failed. -/
def Report.ofTool (summary output : Text) : Report :=
  { category := .command, message := withToolOutput summary output, output }

end ProviderKit
