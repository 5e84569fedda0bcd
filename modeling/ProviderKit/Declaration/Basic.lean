import ProviderKit.Problem
import ProviderKit.Schema.Basic

/-!
# Declarations

A schema is turned into declarations: for each resource one for its inputs and one for its
outputs, in the order of the schema. The field of a property has a type that depends on the
property's tag alone; what arrays and objects hold is not looked at. A field is optional unless
its name is on the required list of its own group.
-/

namespace ProviderKit

/-- The type of a declared field. -/
inductive FieldType where
  | text
  | numeric
  | boolean
  | unknownArray
  | unknownMap
  | unknown
deriving DecidableEq, Inhabited

/-- The type of the field of a property with a given tag. -/
def TypeTag.fieldType : TypeTag → FieldType
  | string => .text
  | integer | number => .numeric
  | boolean => .boolean
  | array => .unknownArray
  | object => .unknownMap
  | unknown => .unknown

/-- One member of a declaration. -/
structure Field where
  name : Text
  type : FieldType
  optional : Bool
deriving DecidableEq, Inhabited

/-- A named shape with its fields in order. -/
structure Declaration where
  name : Text
  fields : List Field := []
deriving DecidableEq, Inhabited

/-- A file of declarations under a header. -/
structure DeclarationFile where
  header : Text
  declarations : List Declaration := []
deriving DecidableEq, Inhabited

namespace Declaration

/-- The lines of the header of a generated file. -/
def warningLines : List Text :=
  ["This file was automatically generated by provider-scripts.",
    "DO NOT MODIFY IT BY HAND. Instead, modify the source schema file,",
    "and run \"provider-scripts generate\" to regenerate this file."]

/-- The header of a generated file. -/
def warningHeader : Text := Text.join "\n" warningLines

/-- The third part of a resource token, which must not be empty. -/
def typeName (token : Text) : Except Problem Text :=
  match Text.split (.char ':') token with
  | _ :: _ :: name :: _ => if name.isEmpty then .error (.badToken token) else .ok name
  | _ => .error (.badToken token)

/-- The fields of a property group. -/
def fieldsOf (properties : Option (List (Text × Property))) (required : Option (List Text)) :
    List Field :=
  (properties.getD []).map fun (name, property) =>
    ⟨name, property.tag.fieldType, !(required.getD []).contains name⟩

/-- The two declarations of a resource. -/
def ofResource (token : Text) (resource : Resource) : Except Problem (List Declaration) := do
  let name ← typeName token
  pure
    [⟨name ++ "Inputs", fieldsOf resource.inputProperties resource.requiredInputs⟩,
     ⟨name ++ "Outputs", fieldsOf resource.properties resource.required⟩]

/-- The declarations of resources, in order; the first bad token is a problem. -/
def ofResources : List (Text × Resource) → Except Problem (List Declaration)
  | [] => .ok []
  | (token, resource) :: rest => do
    let own ← ofResource token resource
    let others ← ofResources rest
    pure (own ++ others)

end Declaration

/-- The declarations of a schema under a header. -/
def Schema.declarations (schema : Schema) (header : Text) : Except Problem DeclarationFile :=
  (fun declarations => ⟨header, declarations⟩) <$> Declaration.ofResources schema.resources

end ProviderKit
