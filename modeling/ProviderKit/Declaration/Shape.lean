import ProviderKit.Declaration.Basic
import ProviderKit.Shape.Checked

/-!
# The shape of a declaration file

Checks a value against the shape of a declaration file and builds the file. Entries that a level
does not know are ignored.
-/

namespace ProviderKit

namespace FieldType

/-- The word for a type in a declaration file's value. -/
def word : FieldType → String
  | text => "text"
  | numeric => "numeric"
  | boolean => "boolean"
  | unknownArray => "unknown_array"
  | unknownMap => "unknown_map"
  | unknown => "unknown"

/-- All types of fields. -/
def all : List FieldType := [text, numeric, boolean, unknownArray, unknownMap, unknown]

/-- The type that a value names. -/
def ofValue (value : Value) : Checked FieldType :=
  let named := match value with
    | .text t => all.find? fun type => Text.ofString type.word = t
    | _ => none
  match named with
  | some type => .ok type
  | none => Checked.broken (.oneOf (all.map word))

end FieldType

namespace Value

/-- The words for true. -/
def trueWords : List Text := ["1", "on", "t", "true", "y", "yes"]

/-- The words for false. -/
def falseWords : List Text := ["0", "off", "f", "false", "n", "no"]

/-- The truth value that one of the numbers one and zero stands for. -/
def truthOfInt (n : Int) : Checked Bool :=
  if n = 1 then .ok true else if n = 0 then .ok false else Checked.broken .truthWord

/-- The truth value that a value stands for. Of the numbers only those of 64 bits are looked at. -/
def truth : Value → Checked Bool
  | .bool b => .ok b
  | .text t =>
    if !t.isWellFormed then Checked.broken .wellFormedText
    else if trueWords.contains t.lowerAscii then .ok true
    else if falseWords.contains t.lowerAscii then .ok false
    else Checked.broken .truthWord
  | .int n =>
    if -(Nat.pow 2 63 : Int) ≤ n ∧ n < Nat.pow 2 63 then truthOfInt n else Checked.broken .truthValue
  | .float x =>
    match x.toInt? with
    | some n =>
      if -(Nat.pow 2 63 : Int) < n ∧ n < Nat.pow 2 63 then truthOfInt n else Checked.broken .truthValue
    | none => Checked.broken .truthValue
  | _ => Checked.broken .truthValue

/-- The part of a mapping under a key that must be there. -/
def need {α : Type} (key : Text) (entries : List (Value × Value)) (item : Value → Checked α) :
    Checked α :=
  Checked.under (.name key) (match lookup key entries with
    | some value => item value
    | none => Checked.broken .present)

/-- The list under a key that may be left out. -/
def listUnder {α : Type} (key : Text) (entries : List (Value × Value))
    (item : Value → Checked α) : Checked (List α) :=
  Checked.under (.name key) (match lookup key entries with
    | none => .ok []
    | some (.list items) =>
      Checked.all (items.mapIdx fun index value => Checked.under (.index index) (item value))
    | some _ => Checked.broken .tuple)

end Value

/-- A field from its value. -/
def Field.ofValue : Value → Checked Field
  | .mapping entries =>
    (fun (name, type, optional) => ⟨name, type, optional⟩) <$>
      Checked.both (Value.need "property_name" entries fun value => .ofRule value.asText)
        (Checked.both (Value.need "type" entries FieldType.ofValue)
          (Value.need "optional" entries Value.truth))
  | _ => Checked.broken (.thing "DeclarationField")

/-- A declaration from its value. -/
def Declaration.ofValue : Value → Checked Declaration
  | .mapping entries =>
    (fun (name, fields) => ⟨name, fields⟩) <$>
      Checked.both (Value.need "name" entries fun value => .ofRule value.asText)
        (Value.listUnder "fields" entries Field.ofValue)
  | _ => Checked.broken (.thing "TypeDeclaration")

/-- A declaration file from its value. -/
def DeclarationFile.ofValue : Value → Checked DeclarationFile
  | .mapping entries =>
    (fun (header, declarations) => ⟨header, declarations⟩) <$>
      Checked.both (Value.need "header" entries fun value => .ofRule value.asText)
        (Value.listUnder "declarations" entries Declaration.ofValue)
  | _ => Checked.broken (.thing "DeclarationFile")

end ProviderKit
