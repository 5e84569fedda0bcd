import Mathlib.Data.List.Forall2
import Mathlib.Tactic.ByContra
import Mathlib.Tactic.SplitIfs
import ProviderKit.Declaration.Basic

/-!
# What a schema is declared as

The declarations of a schema, said without the steps that make them: two for each resource in the
order of the document, the inputs at the even places and the outputs at the odd ones, each field
with the type of its property's tag and optional unless its own group requires it
(`Declaration.Reference`). A schema with a token that names no type has no declarations, and the
first such token is the problem (`Schema.declarations_reference`). Nothing else of a schema has a
say in its declarations (`Schema.Alike`).
-/

namespace ProviderKit

/-- The token splits at its colons into at least three parts, of which the third is the name and is
not empty. -/
def NamesType (token name : Text) : Prop :=
  ∃ first second rest, Text.split (.char ':') token = first :: second :: name :: rest ∧ name ≠ []

/-- The declared type of a property whose `type` entry is the value. -/
def Value.declaredType : Value → FieldType
  | .text tag =>
    if tag = Text.ofString "string" then .text
    else if tag = Text.ofString "integer" ∨ tag = Text.ofString "number" then .numeric
    else if tag = Text.ofString "boolean" then .boolean
    else if tag = Text.ofString "array" then .unknownArray
    else if tag = Text.ofString "object" then .unknownMap
    else .unknown
  | _ => .unknown

/-- The name is on the list, if there is a list. -/
def RequiredBy (required : Option (List Text)) (name : Text) : Prop :=
  ∃ names, required = some names ∧ name ∈ names

namespace Declaration

/-- The fields that a property group is declared with: one for each property, in order, of the type
of the property's tag, and optional if and only if the group's own list does not require it. -/
structure Fields (group : Option (List (Text × Property))) (required : Option (List Text))
    (fields : List Field) : Prop where
  absent : group = none → fields = []
  length : ∀ properties, group = some properties → fields.length = properties.length
  field : ∀ properties, group = some properties →
    ∀ (i : Nat) name property, properties[i]? = some (name, property) →
      ∃ field, fields[i]? = some field ∧ field.name = name ∧
        field.type = property.type.declaredType ∧
        (field.optional = true ↔ ¬ RequiredBy required name)

/-- The declarations of resources whose tokens all name types. -/
structure Reference (resources : List (Text × Resource)) (declarations : List Declaration) :
    Prop where
  length : declarations.length = 2 * resources.length
  inputs : ∀ (i : Nat) token resource name, resources[i]? = some (token, resource) →
    NamesType token name → ∃ fields, declarations[2 * i]? = some ⟨name ++ "Inputs", fields⟩ ∧
      Fields resource.inputProperties resource.requiredInputs fields
  outputs : ∀ (i : Nat) token resource name, resources[i]? = some (token, resource) →
    NamesType token name → ∃ fields, declarations[2 * i + 1]? = some ⟨name ++ "Outputs", fields⟩ ∧
      Fields resource.properties resource.required fields

/-! ## Tokens -/

variable {token name : Text}

/-- The name of a token is read off it. -/
theorem typeName_of_names (h : NamesType token name) : typeName token = .ok name := by
  obtain ⟨first, second, rest, hsplit, hname⟩ := h
  have hsome : name.isEmpty = false := List.isEmpty_eq_false_iff.2 hname
  unfold typeName
  rw [hsplit]
  simp only [hsome, Bool.false_eq_true, if_false]

/-- A token names one type at most. -/
theorem names_unique {other : Text} (h : NamesType token name) (hother : NamesType token other) :
    name = other := by
  have hname := typeName_of_names h
  rw [typeName_of_names hother] at hname
  exact (Except.ok.inj hname).symm

/-- A token that names no type is the problem. -/
theorem typeName_of_not_names (h : ∀ name, ¬ NamesType token name) :
    typeName token = .error (.badToken token) := by
  unfold typeName
  split
  next first second name rest hsplit =>
    -- There is a third part, so it must be the empty one.
    have hempty : name = [] := by
      by_contra hname
      exact h name ⟨first, second, rest, hsplit, hname⟩
    rw [hempty]
    rfl
  next => rfl

/-! ## Fields -/

/-- The type of a field is the one that its property's tag asks for. -/
theorem fieldType_tag (property : Property) :
    property.tag.fieldType = property.type.declaredType := by
  unfold Property.tag
  generalize property.type = value
  unfold TypeTag.ofValue Value.declaredType
  cases value with
  | text tag =>
    -- The tags that a schema can name are tried in turn, as the reference does.
    simp only [TypeTag.all, List.find?_cons, TypeTag.text, List.find?_nil]
    split_ifs with hstring hnumeric hboolean harray hobject
    · subst hstring
      rfl
    · obtain rfl | rfl := hnumeric <;> rfl
    · subst hboolean
      rfl
    · subst harray
      rfl
    · subst hobject
      rfl
    · rw [not_or] at hnumeric
      simp only [Ne.symm hstring, Ne.symm hnumeric.1, Ne.symm hnumeric.2, Ne.symm hboolean,
        Ne.symm harray, Ne.symm hobject, decide_false]
      split <;> rfl
  | _ => rfl

/-- A name is optional if and only if the list of its group does not require it. -/
theorem optional_iff (required : Option (List Text)) (name : Text) :
    (!(required.getD []).contains name) = true ↔ ¬ RequiredBy required name := by
  rw [Bool.not_eq_true', ← Bool.not_eq_true, List.contains_iff_mem, not_iff_not]
  unfold RequiredBy
  cases required with
  | none => simp
  | some names => simp

/-- The fields of a property group are those that it is to be declared with. -/
theorem fields_fieldsOf (group : Option (List (Text × Property)))
    (required : Option (List Text)) : Fields group required (fieldsOf group required) where
  absent := by
    rintro rfl
    rfl
  length := by
    rintro properties rfl
    exact List.length_map _
  field := by
    rintro properties rfl i name property hproperty
    have hfield : (fieldsOf (some properties) required)[i]? =
        some ⟨name, property.tag.fieldType, !(required.getD []).contains name⟩ := by
      unfold fieldsOf
      rw [Option.getD_some, List.getElem?_map, hproperty]
      rfl
    exact ⟨_, hfield, rfl, fieldType_tag property, optional_iff required name⟩

/-! ## Resources -/

/-- The two declarations of a resource with a given name. -/
def pair (name : Text) (resource : Resource) : List Declaration :=
  [⟨name ++ "Inputs", fieldsOf resource.inputProperties resource.requiredInputs⟩,
   ⟨name ++ "Outputs", fieldsOf resource.properties resource.required⟩]

/-- A resource whose token names a type has its two declarations. -/
theorem ofResource_of_names (h : NamesType token name) (resource : Resource) :
    ofResource token resource = .ok (pair name resource) := by
  unfold ofResource
  rw [typeName_of_names h]
  rfl

/-- A resource whose token names no type is the problem. -/
theorem ofResource_of_not_names (h : ∀ name, ¬ NamesType token name) (resource : Resource) :
    ofResource token resource = .error (.badToken token) := by
  unfold ofResource
  rw [typeName_of_not_names h]
  rfl

/-- With its two declarations in front, what is at a place moves on by two. -/
theorem reference_cons {resource : Resource} {rest : List (Text × Resource)}
    {others : List Declaration} (h : NamesType token name) (hrest : Reference rest others) :
    Reference ((token, resource) :: rest) (pair name resource ++ others) where
  length := by
    have hlength := hrest.length
    simp only [pair, List.cons_append, List.nil_append, List.length_cons]
    omega
  inputs := by
    intro i token' resource' name' hentry hnames
    cases i with
    | zero =>
      obtain ⟨rfl, rfl⟩ := Prod.mk.inj (Option.some.inj hentry)
      obtain rfl := names_unique h hnames
      exact ⟨_, rfl, fields_fieldsOf _ _⟩
    | succ i =>
      have hplace : 2 * (i + 1) = 2 * i + 1 + 1 := by omega
      rw [hplace]
      exact hrest.inputs i token' resource' name' hentry hnames
  outputs := by
    intro i token' resource' name' hentry hnames
    cases i with
    | zero =>
      obtain ⟨rfl, rfl⟩ := Prod.mk.inj (Option.some.inj hentry)
      obtain rfl := names_unique h hnames
      exact ⟨_, rfl, fields_fieldsOf _ _⟩
    | succ i =>
      have hplace : 2 * (i + 1) + 1 = 2 * i + 1 + 1 + 1 := by omega
      rw [hplace]
      exact hrest.outputs i token' resource' name' hentry hnames

/-- Resources whose tokens all name types have their declarations. -/
theorem ofResources_ok {resources : List (Text × Resource)}
    (h : ∀ entry ∈ resources, ∃ name, NamesType entry.1 name) :
    ∃ declarations, ofResources resources = .ok declarations ∧
      Reference resources declarations := by
  induction resources with
  | nil =>
    refine ⟨[], rfl, rfl, ?_, ?_⟩
    · intro i token resource name hentry
      cases hentry
    · intro i token resource name hentry
      cases hentry
  | cons entry rest ih =>
    obtain ⟨token, resource⟩ := entry
    obtain ⟨name, hname⟩ := h _ List.mem_cons_self
    obtain ⟨others, hothers, hreference⟩ := ih fun e he => h e (List.mem_cons_of_mem _ he)
    refine ⟨pair name resource ++ others, ?_, reference_cons hname hreference⟩
    rw [ofResources, ofResource_of_names hname, hothers]
    rfl

/-- Where a token names no type, the first one that does not is the problem. -/
theorem ofResources_error {resources : List (Text × Resource)}
    (h : ¬ ∀ entry ∈ resources, ∃ name, NamesType entry.1 name) :
    ∃ before token resource after, resources = before ++ (token, resource) :: after ∧
      (∀ entry ∈ before, ∃ name, NamesType entry.1 name) ∧ (∀ name, ¬ NamesType token name) ∧
      ofResources resources = .error (.badToken token) := by
  induction resources with
  | nil => exact absurd (fun entry hentry => absurd hentry List.not_mem_nil) h
  | cons entry rest ih =>
    obtain ⟨token, resource⟩ := entry
    by_cases hnamed : ∃ name, NamesType token name
    · obtain ⟨name, hname⟩ := hnamed
      have hlater : ¬ ∀ entry ∈ rest, ∃ name, NamesType entry.1 name := by
        intro hall
        apply h
        intro entry hentry
        rcases List.mem_cons.1 hentry with rfl | hmem
        · exact ⟨name, hname⟩
        · exact hall entry hmem
      obtain ⟨before, bad, other, after, rfl, hbefore, hbad, herror⟩ := ih hlater
      refine ⟨(token, resource) :: before, bad, other, after, rfl, ?_, hbad, ?_⟩
      · intro entry hentry
        rcases List.mem_cons.1 hentry with rfl | hmem
        · exact ⟨name, hname⟩
        · exact hbefore entry hmem
      · rw [ofResources, ofResource_of_names hname, herror]
        rfl
    · have hnone : ∀ name, ¬ NamesType token name := fun name hname => hnamed ⟨name, hname⟩
      refine ⟨[], token, resource, rest, rfl, ?_, hnone, ?_⟩
      · intro entry hentry
        cases hentry
      · rw [ofResources, ofResource_of_not_names hnone]
        rfl

/-! ## What has no say -/

/-- Two property groups with the same names and declared types, whose lists agree on these names. -/
structure GroupAlike (group other : Option (List (Text × Property)))
    (required others : Option (List Text)) : Prop where
  same : (group.getD []).map (fun entry => (entry.1, entry.2.type.declaredType)) =
    (other.getD []).map (fun entry => (entry.1, entry.2.type.declaredType))
  agree : ∀ entry ∈ group.getD [], RequiredBy required entry.1 ↔ RequiredBy others entry.1

/-- Two entries with one token whose groups are alike, each group with its own list. -/
structure EntryAlike (entry other : Text × Resource) : Prop where
  token : entry.1 = other.1
  inputs : GroupAlike entry.2.inputProperties other.2.inputProperties entry.2.requiredInputs
    other.2.requiredInputs
  outputs : GroupAlike entry.2.properties other.2.properties entry.2.required other.2.required

/-- A field is made of the name and the declared type alone, and of whether the name is required. -/
theorem fieldsOf_eq (group : Option (List (Text × Property))) (required : Option (List Text)) :
    fieldsOf group required =
      ((group.getD []).map fun entry => (entry.1, entry.2.type.declaredType)).map
        fun entry => ⟨entry.1, entry.2, !(required.getD []).contains entry.1⟩ := by
  unfold fieldsOf
  rw [List.map_map]
  apply List.map_congr_left
  intro entry _
  simp only [Function.comp_apply, fieldType_tag]

/-- Groups that are alike have the same fields. -/
theorem fieldsOf_alike {group other : Option (List (Text × Property))}
    {required others : Option (List Text)} (h : GroupAlike group other required others) :
    fieldsOf group required = fieldsOf other others := by
  rw [fieldsOf_eq group, fieldsOf_eq other, ← h.same]
  apply List.map_congr_left
  intro entry hentry
  obtain ⟨original, hmem, rfl⟩ := List.mem_map.1 hentry
  have hagree : (!(required.getD []).contains original.1) =
      !(others.getD []).contains original.1 := by
    rw [Bool.eq_iff_iff, optional_iff, optional_iff, not_iff_not]
    exact h.agree original hmem
  simp only [hagree]

/-- Resources that are alike have the same declarations, or the same problem. -/
theorem ofResources_alike {resources others : List (Text × Resource)}
    (h : List.Forall₂ EntryAlike resources others) :
    ofResources resources = ofResources others := by
  induction h with
  | nil => rfl
  | @cons entry other rest rest' hentry hrest ih =>
    have hown : ofResource entry.1 entry.2 = ofResource other.1 other.2 := by
      unfold ofResource
      rw [hentry.token, fieldsOf_alike hentry.inputs, fieldsOf_alike hentry.outputs]
    rw [ofResources, ofResources, hown, ih]

end Declaration

namespace Schema

/-- Two schemas whose entries are alike, one by one. Their properties and lists may differ in
everything that the declarations do not show. -/
def Alike (schema other : Schema) : Prop :=
  List.Forall₂ Declaration.EntryAlike schema.resources other.resources

/-- A schema whose tokens all name types is declared as the reference says, under the header. Any
other schema is refused, for the first of its tokens that names none. Schemas that are alike have
the same outcome. -/
theorem declarations_reference (schema : Schema) (header : Text) :
    ((∀ entry ∈ schema.resources, ∃ name, NamesType entry.1 name) →
      ∃ declarations, schema.declarations header = .ok ⟨header, declarations⟩ ∧
        Declaration.Reference schema.resources declarations) ∧
    ((¬ ∀ entry ∈ schema.resources, ∃ name, NamesType entry.1 name) →
      ∃ before token resource after, schema.resources = before ++ (token, resource) :: after ∧
        (∀ entry ∈ before, ∃ name, NamesType entry.1 name) ∧ (∀ name, ¬ NamesType token name) ∧
        ∃ problem, schema.declarations header = .error problem ∧
          problem.report.category = .schemaParse ∧
          problem.message = "Invalid resource token '" ++ token ++
            "': expected 'package:module:Type'") ∧
    ∀ other : Schema, schema.Alike other →
      schema.declarations header = other.declarations header := by
  refine ⟨?_, ?_, ?_⟩
  · intro hall
    obtain ⟨declarations, hok, hreference⟩ := Declaration.ofResources_ok hall
    refine ⟨declarations, ?_, hreference⟩
    unfold Schema.declarations
    rw [hok]
    rfl
  · intro hsome
    obtain ⟨before, token, resource, after, hsplit, hbefore, hbad, herror⟩ :=
      Declaration.ofResources_error hsome
    refine ⟨before, token, resource, after, hsplit, hbefore, hbad, .badToken token, ?_, rfl, rfl⟩
    unfold Schema.declarations
    rw [herror]
    rfl
  · intro other halike
    unfold Schema.declarations
    rw [Declaration.ofResources_alike halike]

/-- Empty parts in front and parts behind do not matter, a required name without a property does
not either, and a name that only the other group requires is optional. -/
example : Schema.declarations
    ⟨[("::T:x", { properties := some [("a", {}), ("b", ⟨.text "integer", []⟩)],
                  required := some ["c", "b", "b"], requiredInputs := some ["a"] })], []⟩ "h" =
    .ok ⟨"h", [⟨"TInputs", []⟩,
      ⟨"TOutputs", [⟨"a", .unknown, true⟩, ⟨"b", .numeric, false⟩]⟩]⟩ := by
  rfl

end Schema

end ProviderKit
