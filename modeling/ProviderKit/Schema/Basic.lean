import ProviderKit.Value.Basic

/-!
# Resource schemas

A schema describes resources under tokens of the form `package:module:Type`. A resource has output
properties and input properties, each group with a list of the names that are required. Of a
property only its type tag is interpreted. Whatever else a schema holds is kept, in order, as the
extra entries of its level.
-/

namespace ProviderKit

/-- The tag of a property type. -/
inductive TypeTag where
  | string
  | integer
  | number
  | boolean
  | array
  | object
  | unknown
deriving DecidableEq, Inhabited

namespace TypeTag

/-- The spelling of a tag in a schema. -/
def text : TypeTag → String
  | string => "string"
  | integer => "integer"
  | number => "number"
  | boolean => "boolean"
  | array => "array"
  | object => "object"
  | unknown => "unknown"

/-- The tags that a schema can name. -/
def all : List TypeTag := [string, integer, number, boolean, array, object, unknown]

/-- The tag that a value names; a value that names none is of unknown type. -/
def ofValue : Value → TypeTag
  | .text t => (all.find? fun tag => Text.ofString tag.text = t).getD unknown
  | _ => unknown

end TypeTag

/-- The schema of a property: the value of its `type` entry, and its other entries. -/
structure Property where
  type : Value := .null
  extra : List (Text × Value) := []
deriving Inhabited

/-- The type tag of a property. -/
def Property.tag (p : Property) : TypeTag := .ofValue p.type

/-- The schema of a resource. A group or list that the schema leaves out, or gives as null, is
absent. -/
structure Resource where
  properties : Option (List (Text × Property)) := none
  required : Option (List Text) := none
  inputProperties : Option (List (Text × Property)) := none
  requiredInputs : Option (List Text) := none
  extra : List (Text × Value) := []
deriving Inhabited

/-- A schema document: its resources by token, in the order of the document. -/
structure Schema where
  resources : List (Text × Resource) := []
  extra : List (Text × Value) := []
deriving Inhabited

/-- The entries with one more: a new name goes to the end, a name already there keeps its place
and gets the new item. -/
def insertNamed {α : Type} (name : Text) (item : α) : List (Text × α) → List (Text × α)
  | [] => [(name, item)]
  | (n, a) :: rest => if n = name then (n, item) :: rest else (n, a) :: insertNamed name item rest

end ProviderKit
