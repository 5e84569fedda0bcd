import ProviderKit.Value.Basic

/-!
# JSON documents

The values of a JSON document. Numbers are kept apart as integers of any size and floating-point
numbers, as they are written. Objects keep the order of their members and hold each key once.
-/

namespace ProviderKit

/-- A JSON document. -/
inductive Json where
  | null
  | bool (b : Bool)
  | int (n : Int)
  | float (x : Binary64)
  | text (t : Text)
  | array (items : List Json)
  | object (members : List (Text × Json))
deriving Inhabited

namespace Json

/-- The members with one more: a new key goes to the end, a key already there keeps its place and
gets the new value. -/
def insertMember (key : Text) (value : Json) : List (Text × Json) → List (Text × Json)
  | [] => [(key, value)]
  | (k, v) :: rest =>
    if k = key then (k, value) :: rest else (k, v) :: insertMember key value rest

/-- The members in the order written, each repeated key collapsed into its first place with its
last value. -/
def ofMembers (members : List (Text × Json)) : List (Text × Json) :=
  members.foldl (fun done (key, value) => insertMember key value done) []

/-- The value at a key. -/
def lookup (key : Text) : List (Text × Json) → Option Json
  | [] => none
  | (k, v) :: rest => if k = key then some v else lookup key rest

mutual

/-- The data value that a document describes. -/
def toValue : Json → Value
  | null => .null
  | bool b => .bool b
  | int n => .int n
  | float x => .float x
  | text t => .text t
  | array items => .list (itemsToValues items)
  | object members => .mapping (membersToEntries members)

/-- The data values of the items of an array. -/
def itemsToValues : List Json → List Value
  | [] => []
  | item :: items => item.toValue :: itemsToValues items

/-- The entries of the members of an object. -/
def membersToEntries : List (Text × Json) → List (Value × Value)
  | [] => []
  | (key, value) :: members => (.text key, value.toValue) :: membersToEntries members

end

end Json

end ProviderKit
