import ProviderKit.Json.Writer
import ProviderKit.Text.Blank
import ProviderKit.Text.Lines
import ProviderKit.Declaration.Basic

/-!
# Printing declarations

A declaration file is printed as TypeScript: the header as a comment, then one exported interface
for each declaration with one read-only member a line. A property name that is no identifier is
quoted as a JSON string.
-/

namespace ProviderKit

/-- A character that starts an identifier. -/
def Char.startsIdentifier (c : Char) : Bool := c.isAlpha || c = '_' || c = '$'

/-- A character inside an identifier. -/
def Char.continuesIdentifier (c : Char) : Bool := c.isAlphanum || c = '_' || c = '$'

/-- An identifier of ASCII letters, digits, `_` and `$` that does not start with a digit. -/
def Text.isIdentifier : Text → Bool
  | [] => false
  | c :: t => c.satisfies Char.startsIdentifier && t.all (·.satisfies Char.continuesIdentifier)

/-- A property name as it stands in a member. -/
def Text.asPropertyName (name : Text) : Text := if name.isIdentifier then name else Json.quote name

namespace FieldType

/-- The type in TypeScript. -/
def source : FieldType → Text
  | text => "string"
  | numeric => "number"
  | boolean => "boolean"
  | unknownArray => "unknown[]"
  | unknownMap => "Record<string, unknown>"
  | unknown => "unknown"

end FieldType

/-- A member of an interface. -/
def Field.source (f : Field) : Text :=
  let mark : Text := if f.optional then "?" else ""
  "readonly " ++ f.name.asPropertyName ++ mark ++ ": " ++ f.type.source ++ ";"

/-- The white space in front of a member. -/
def Field.indent : Text := "    "

/-- The lines of an interface. -/
def Declaration.sourceLines (d : Declaration) : List Text :=
  ("export interface " ++ d.name ++ " \x7b") :: d.fields.map (Field.indent ++ ·.source) ++
    [Text.ofString "\x7d"]

namespace DeclarationFile

/-- A line of the comment that holds a header. -/
def headerLine (line : Text) : Text := Text.trimEnd (" * " ++ line)

/-- The lines of the comment that holds a header. -/
def headerLines (header : Text) : List Text :=
  Text.ofString "/**" :: header.lines.map headerLine ++ [Text.ofString " */"]

/-- The lines of a file. -/
def sourceLines (file : DeclarationFile) : List Text :=
  headerLines file.header ++ file.declarations.flatMap Declaration.sourceLines

/-- The text of a file. -/
def source (file : DeclarationFile) : Text := file.sourceLines.flatMap (· ++ "\n")

end DeclarationFile

/-- The name of the file that declarations are written to. -/
def declarationFilename : Text := "provider-types.d.ts"

end ProviderKit
