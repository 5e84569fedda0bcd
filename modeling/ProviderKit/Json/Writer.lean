import ProviderKit.Text.Quoted
import ProviderKit.Number.Shortest
import ProviderKit.Interpreter
import ProviderKit.Json.Basic

/-!
# Writing JSON

Documents are written with two spaces for each level, one item or member a line, and nothing but
brackets for an empty array or object. Characters beyond ASCII stand for themselves; only quotes,
backslashes and control characters are escaped. A document with too many levels is not written.
-/

namespace ProviderKit.Json

/-- One code point inside a string. -/
def escapeCodePoint : CodePoint → Text
  | .char '"' => "\\\""
  | .char '\\' => "\\\\"
  | .char '\n' => "\\n"
  | .char '\r' => "\\r"
  | .char '\t' => "\\t"
  | .char '\x08' => "\\b"
  | .char '\x0c' => "\\f"
  | c => if c.toNat < 0x20 then .ofChars ('\\' :: 'u' :: hexDigits 4 c.toNat) else [c]

/-- The string literal of a text. -/
def quote (t : Text) : Text := .char '"' :: t.flatMap escapeCodePoint ++ [.char '"']

/-- The beginning of a line at a given depth, after the end of the line before. -/
def newLine (depth : Nat) : Text := .char '\n' :: List.replicate (2 * depth) (.char ' ')

mutual

/-- A document whose first line starts at a given depth. -/
def writeAt (depth : Nat) : Json → Text
  | null => "null"
  | bool b => if b then "true" else "false"
  | int n => Text.ofInt n
  | float x => x.text "Infinity" "NaN"
  | text t => quote t
  | array [] => "[]"
  | array items => "[" ++ writeItems (depth + 1) items ++ newLine depth ++ "]"
  | object [] => "\x7b\x7d"
  | object members => "\x7b" ++ writeMembers (depth + 1) members ++ newLine depth ++ "\x7d"

/-- The items of an array, each on its own line. -/
def writeItems (depth : Nat) : List Json → Text
  | [] => []
  | [item] => newLine depth ++ writeAt depth item
  | item :: items => newLine depth ++ writeAt depth item ++ "," ++ writeItems depth items

/-- The members of an object, each on its own line. -/
def writeMembers (depth : Nat) : List (Text × Json) → Text
  | [] => []
  | [(key, value)] => newLine depth ++ quote key ++ ": " ++ writeAt depth value
  | (key, value) :: members =>
    newLine depth ++ quote key ++ ": " ++ writeAt depth value ++ "," ++
      writeMembers depth members

end

/-- The text of a document. -/
def write (j : Json) : Text := writeAt 0 j

mutual

/-- How deep writing a document goes: a level for a value and for each value around it, and one more
for a floating-point number. -/
def levels : Json → Nat
  | float _ => 2
  | array items => 1 + itemLevels items
  | object members => 1 + memberLevels members
  | null | bool _ | int _ | text _ => 1

/-- How deep writing the items of an array goes. -/
def itemLevels : List Json → Nat
  | [] => 0
  | item :: items => max item.levels (itemLevels items)

/-- How deep writing the members of an object goes. -/
def memberLevels : List (Text × Json) → Nat
  | [] => 0
  | (_, value) :: members => max value.levels (memberLevels members)

end

/-- The text of a document, unless it has too many levels. -/
def write? [Interpreter] (j : Json) : Option Text :=
  if levels j ≤ Interpreter.writing then some (write j) else none

end ProviderKit.Json
