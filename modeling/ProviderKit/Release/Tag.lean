import ProviderKit.Problem

/-!
# Release tags

A release is tagged `v<major>.<minor>.<patch>`, three runs of ASCII digits, and the tag may be
given in full as `refs/tags/v…`. `Release.version` is the version that a tag or reference names.
-/

namespace ProviderKit.Release

/-- What a reference to a tag begins with. -/
def referenceStart : Text := "refs/tags/"

/-- The tag that a reference names; a text that is no reference is the tag itself. -/
def tagOf (reference : Text) : Text := (reference.dropPrefix? referenceStart).getD reference

/-- An ASCII digit. -/
def isDigit (c : CodePoint) : Bool := c.satisfies Char.isDigit

/-- A number: one or more digits. -/
def isNumber (t : Text) : Bool := !t.isEmpty && t.all isDigit

/-- A version: three numbers with dots between them. -/
def isVersion (t : Text) : Bool :=
  match Text.split (.char '.') t with
  | [major, minor, patch] => isNumber major && isNumber minor && isNumber patch
  | _ => false

/-- The version that a tag names. -/
def versionOfTag? : Text → Option Text
  | .char 'v' :: version => if isVersion version then some version else none
  | _ => none

/-- The version that a release tag or reference names. -/
def version (reference : Text) : Except Problem Text :=
  match versionOfTag? (tagOf reference) with
  | some version => .ok version
  | none => .error (.badVersionTag (tagOf reference))

end ProviderKit.Release
