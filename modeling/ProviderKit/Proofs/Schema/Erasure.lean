import Mathlib.Data.Set.Basic
import ProviderKit.Declaration.Printer
import ProviderKit.Proofs.Declaration.Reference
import ProviderKit.Proofs.Schema.Shape

/-!
# What generation leaves out

What the declarations of a schema can show of its document (`Json.shown`): the tokens and the names
of the properties in order, the tag of each property if it is one of the six that have a declared
type, and which names each group requires. Two documents that agree in this have the same
declarations, however they differ in all else (`Schema.declarations_erase`).

The schema that is made of a document shows what the document does, since it holds what the document
says (`Schema.Holds.shown`). Schemas that show the same are alike, and of alike schemas the
declarations are known to be the same.
-/

namespace ProviderKit

/-- The tags that a declared type stands for. -/
def declaredTags : List Text := ["string", "integer", "number", "boolean", "array", "object"]

/-- The tag that a `type` entry names, if a declared type stands for it. -/
def Value.declaredTag : Value → Option Text
  | .text tag => if tag ∈ declaredTags then some tag else none
  | _ => none

/-- What the declarations of a resource can show of it. -/
structure Shown where
  token : Text
  inputs : List (Text × Option Text)
  requiredInputs : Set Text
  outputs : List (Text × Option Text)
  requiredOutputs : Set Text

/-! ## Of a document -/

namespace Json

/-- The members of an object; anything else has none. -/
def members : Json → List (Text × Json)
  | object members => members
  | _ => []

/-- The items of an array; anything else has none. -/
def items : Json → List Json
  | array items => items
  | _ => []

/-- The members of what is given under a key. -/
def group (key : Text) (members : List (Text × Json)) : List (Text × Json) :=
  (given key members).elim [] Json.members

/-- The tag of a property schema, if a declared type stands for it. -/
def declaredTag (j : Json) : Option Text :=
  ((lookup "type" j.members).getD null).toValue.declaredTag

/-- The names and tags of the properties under a key. -/
def tags (key : Text) (members : List (Text × Json)) : List (Text × Option Text) :=
  (group key members).map fun member => (member.1, member.2.declaredTag)

/-- The names on the list under a key. -/
def names (key : Text) (members : List (Text × Json)) : Set Text :=
  {name | ∃ j ∈ given key members, text name ∈ j.items}

/-- Of an array of texts, these are the names on the list. -/
theorem names_of_given {key : Text} {members : List (Text × Json)} (list : List Text)
    (h : given key members = some (array (list.map text))) :
    names key members = {name | name ∈ list} := by
  ext name
  simp [names, h, items]

/-- What declarations can show of the resource that the document describes under a token. -/
def shownResource (token : Text) (resource : Json) : Shown where
  token := token
  inputs := tags (inputsKey resource.members) resource.members
  requiredInputs := names (requiredInputsKey resource.members) resource.members
  outputs := tags "properties" resource.members
  requiredOutputs := names "required" resource.members

/-- What declarations can show of a schema document. -/
def shown (j : Json) : List Shown :=
  (group "resources" j.members).map fun member => shownResource member.1 member.2

end Json

/-! ## Of a schema -/

/-- What declarations can show of the resource under a token. -/
def Resource.shown (token : Text) (resource : Resource) : Shown where
  token := token
  inputs := (resource.inputProperties.getD []).map fun entry => (entry.1, entry.2.type.declaredTag)
  requiredInputs := {name | RequiredBy resource.requiredInputs name}
  outputs := (resource.properties.getD []).map fun entry => (entry.1, entry.2.type.declaredTag)
  requiredOutputs := {name | RequiredBy resource.required name}

/-- A property shows the tag that its document does. -/
theorem Property.Holds.declaredTag {p : Property} {j : Json} (h : p.Holds j) :
    p.type.declaredTag = j.declaredTag := by
  cases j with
  | object members =>
    rw [h.1]
    rfl
  | _ =>
    rw [show p = {} from h]
    rfl

variable {members : List (Text × Json)}

/-- Entries that belong to members show what the members do, if each thing does. -/
theorem map_of_named {α β : Type} {holds : α → Json → Prop} {entries : List (Text × α)}
    (h : Json.Named holds entries members) {f : Text → α → β} {g : Text → Json → β}
    (hsame : ∀ name a j, holds a j → f name a = g name j) :
    entries.map (fun entry => f entry.1 entry.2) =
      members.map fun member => g member.1 member.2 := by
  induction h with
  | nil => rfl
  | cons hfirst _ ih =>
    rw [List.map_cons, List.map_cons, ih, hfirst.1, hsame _ _ _ hfirst.2]

/-- A group shows the names and tags that its document does. -/
theorem tags_of_holdGroup {key : Text} {found : Option (List (Text × Property))}
    (h : Option.Rel Property.HoldGroup found (Json.given key members)) :
    (found.getD []).map (fun entry => (entry.1, entry.2.type.declaredTag)) =
      Json.tags key members := by
  unfold Json.tags Json.group
  generalize Json.given key members = given at h
  rcases h with ⟨properties, rfl, hnamed⟩ | _
  · exact map_of_named hnamed (f := fun name p => (name, p.type.declaredTag))
      fun name _ _ h => congrArg (Prod.mk name) h.declaredTag
  · rfl

/-- A list requires the names that its document does. -/
theorem names_of_holdNames {key : Text} {found : Option (List Text)}
    (h : Option.Rel Resource.HoldNames found (Json.given key members)) :
    {name | RequiredBy found name} = Json.names key members := by
  ext name
  -- Without a list no name is required, and none is on it.
  unfold Json.names
  generalize Json.given key members = given at h
  rcases h with rfl | _ <;> simp [RequiredBy, Json.items]

/-- A resource shows what its document does. -/
theorem Resource.Holds.shown {r : Resource} (h : r.Holds members) (token : Text) :
    r.shown token = Json.shownResource token (.object members) := by
  unfold Resource.shown Json.shownResource
  rw [tags_of_holdGroup h.inputProperties, tags_of_holdGroup h.properties,
    names_of_holdNames h.requiredInputs, names_of_holdNames h.required]
  rfl

/-- A schema shows what its document does. -/
theorem Schema.Holds.shown {s : Schema} (h : s.Holds members) :
    s.resources.map (fun entry => entry.2.shown entry.1) = (Json.object members).shown := by
  obtain ⟨⟨resources, hresources, hall⟩, -⟩ := h
  rw [hresources, Json.shown, Json.group, Json.members]
  generalize Json.given "resources" members = given at hall
  rcases hall with ⟨entries, rfl, hnamed⟩ | _
  · refine map_of_named hnamed (f := fun token r => r.shown token) ?_
    rintro token r _ ⟨members, rfl, hholds⟩
    exact hholds.shown token
  · rfl

/-! ## What the declarations show -/

/-- The declared type of a property depends on its tag alone. -/
theorem Value.declaredType_declaredTag (value : Value) :
    value.declaredType = (value.declaredTag.map fun tag => (Value.text tag).declaredType).getD
      .unknown := by
  cases value with
  | text tag =>
    rw [Value.declaredTag]
    by_cases htag : tag ∈ declaredTags
    · rw [if_pos htag]
      rfl
    · -- An unknown tag has the type that no tag has.
      rw [if_neg htag]
      simp only [declaredTags, List.mem_cons, List.not_mem_nil, or_false, not_or] at htag
      simp [Value.declaredType, htag]
  | _ => rfl

/-- Groups that show the same are alike. -/
theorem groupAlike_of_shown {group other : Option (List (Text × Property))}
    {required others : Option (List Text)}
    (htags : (group.getD []).map (fun entry => (entry.1, entry.2.type.declaredTag)) =
      (other.getD []).map fun entry => (entry.1, entry.2.type.declaredTag))
    (hrequired : {name | RequiredBy required name} = {name | RequiredBy others name}) :
    Declaration.GroupAlike group other required others where
  same := by
    -- The type is what the tag that is shown makes of it.
    have htypes := congrArg (List.map fun entry : Text × Option Text =>
      (entry.1, (entry.2.map fun tag => (Value.text tag).declaredType).getD .unknown)) htags
    simpa only [List.map_map, Function.comp_def, ← Value.declaredType_declaredTag] using htypes
  agree entry _ := Set.ext_iff.1 hrequired entry.1

/-- Schemas that show the same are alike. -/
theorem Schema.alike_of_shown {s s' : Schema}
    (h : s.resources.map (fun entry => entry.2.shown entry.1) =
      s'.resources.map fun entry => entry.2.shown entry.1) : s.Alike s' := by
  rw [← List.forall₂_eq_eq_eq, List.forall₂_map_left_iff, List.forall₂_map_right_iff] at h
  refine h.imp fun entry other hshown => ?_
  simp only [Resource.shown, Shown.mk.injEq] at hshown
  obtain ⟨htoken, hinputs, hrequiredInputs, houtputs, hrequired⟩ := hshown
  exact ⟨htoken, groupAlike_of_shown hinputs hrequiredInputs,
    groupAlike_of_shown houtputs hrequired⟩

/-- Two documents that are accepted and show the same have the same text of declarations under a
header, or are refused for the same token. -/
theorem Schema.declarations_erase {j j' : Json} {s s' : Schema} (hkeyed : j.Keyed)
    (hkeyed' : j'.Keyed) (hs : ofValue j.toValue = .ok s) (hs' : ofValue j'.toValue = .ok s')
    (hshown : j.shown = j'.shown) (header : Text) :
    (∃ text, DeclarationFile.source <$> s.declarations header = .ok text ∧
      DeclarationFile.source <$> s'.declarations header = .ok text) ∨
    ∃ token, s.declarations header = .error (.badToken token) ∧
      s'.declarations header = .error (.badToken token) := by
  obtain ⟨members, rfl, hholds⟩ := holds_of_ofValue hkeyed hs
  obtain ⟨members', rfl, hholds'⟩ := holds_of_ofValue hkeyed' hs'
  have halike : s.Alike s' :=
    alike_of_shown ((hholds.shown.trans hshown).trans hholds'.shown.symm)
  have hsame : s'.declarations header = s.declarations header := by
    unfold Schema.declarations
    rw [Declaration.ofResources_alike halike]
  rw [hsame]
  -- Declarations are refused for a token only, and else they are made.
  by_cases hnames : ∀ entry ∈ s.resources, ∃ name, NamesType entry.1 name
  · obtain ⟨declarations, hok, -⟩ := Declaration.ofResources_ok hnames
    refine .inl ⟨DeclarationFile.source ⟨header, declarations⟩, ?_⟩
    rw [and_self, Schema.declarations, hok]
    rfl
  · obtain ⟨_, token, _, _, _, _, _, herror⟩ := Declaration.ofResources_error hnames
    refine .inr ⟨token, ?_⟩
    rw [and_self, Schema.declarations, herror]
    rfl

/-- Two documents that differ in their extra entries, in what is said of a property besides its tag,
in a tag that is not known, in the order of a list, in the spelling of one, and in an absent group
that the other one gives as null. -/
theorem Schema.declarations_erase_bucket :
    let long : List (Text × Json) := [("description", .text "A bucket."),
      ("inputProperties", .null),
      ("properties", .object [("id", .object [("type", .text "string"), ("secret", .bool true)]),
        ("tags", .object [("type", .text "array"), ("items", .object [("type", .text "string")])]),
        ("size", .object [("type", .text "float")])]),
      ("required", .array [.text "id", .text "tags"]), ("requiredInputs", .array [.text "name"])]
    let short : List (Text × Json) := [("required_inputs", .array [.text "name"]),
      ("required", .array [.text "tags", .text "id", .text "tags"]),
      ("properties", .object [("id", .object [("type", .text "string")]),
        ("tags", .object [("items", .null), ("type", .text "array")]), ("size", .bool true)])]
    let document := fun resource => Json.object [("resources", .object
      [("store:index:Bucket", .object resource)])]
    ∃ s s' text, ofValue (document long).toValue = .ok s ∧
      ofValue (document short).toValue = .ok s' ∧
      DeclarationFile.source <$> s.declarations "Generated." = .ok text ∧
      DeclarationFile.source <$> s'.declarations "Generated." = .ok text := by
  intro long short document
  -- The lists differ in their order and in a repetition, but not in what is on them.
  have hlists : {name | name ∈ (["id", "tags"] : List Text)} =
      {name | name ∈ (["tags", "id", "tags"] : List Text)} := by
    ext name
    simp only [List.mem_cons, List.not_mem_nil, or_false, Set.mem_ofPred_eq]
    tauto
  have hrequired : Json.names "required" long = Json.names "required" short :=
    (Json.names_of_given _ rfl).trans (hlists.trans (Json.names_of_given _ rfl).symm)
  have hrequiredInputs : Json.names (Json.requiredInputsKey long) long =
      Json.names (Json.requiredInputsKey short) short :=
    (Json.names_of_given ["name"] rfl).trans (Json.names_of_given _ rfl).symm
  have hshown : (document long).shown = (document short).shown := by
    show [Json.shownResource _ (.object long)] = [Json.shownResource _ (.object short)]
    have hinputs : Json.tags (Json.inputsKey long) long =
        Json.tags (Json.inputsKey short) short := by decide
    have houtputs : Json.tags "properties" long = Json.tags "properties" short := by decide
    unfold Json.shownResource Json.members
    dsimp only
    rw [hinputs, houtputs, hrequired, hrequiredInputs]
  have hkeyed : (document long).Keyed := by decide
  have hkeyed' : (document short).Keyed := by decide
  rcases declarations_erase hkeyed hkeyed' rfl rfl hshown "Generated." with
    ⟨text, hlong, hshort⟩ | ⟨_, hlong, _⟩
  · exact ⟨_, _, text, rfl, rfl, hlong, hshort⟩
  · cases hlong

end ProviderKit
