import Mathlib.Data.List.Nodup
import ProviderKit.Proofs.Declaration.Reading
import ProviderKit.Proofs.Declaration.Reference

/-!
# The names of declarations

A declaration is named for the third part of its resource's token, whatever that part is and
whatever the other parts are. So the names of a file are as good as the types that its tokens name:
they differ if the types do, and they are identifiers if the types are
(`Schema.declarations_names`). Of such names the text of a file is the comment and then one
interface for each name (`Declaration.IsInterface`).
-/

namespace ProviderKit

/-- The names of the declarations of a type. -/
def typeNames (type : Text) : List Text := [type ++ "Inputs", type ++ "Outputs"]

/-! ## Well-formed interfaces -/

/-- The text is a property name: an identifier, or a quoted string. -/
inductive Text.IsPropertyName : Text → Prop
  | bare {name : Text} : name.isIdentifier = true → IsPropertyName name
  | quoted (name : Text) : IsPropertyName (Json.quote name)

/-- The line is a member: a name that may be marked as optional, and one of the six types. -/
inductive Field.IsMember : Text → Prop
  | mk {name mark : Text} (type : FieldType) : name.IsPropertyName →
    mark ∈ ([[], "?"] : List Text) →
    IsMember ("    readonly " ++ name ++ mark ++ ": " ++ type.source ++ ";")

/-- The lines are an interface with the name: its opening, its members and its closing. -/
inductive Declaration.IsInterface (name : Text) : List Text → Prop
  | mk {members : List Text} : (∀ line ∈ members, Field.IsMember line) →
    IsInterface name (("export interface " ++ name ++ " \x7b") :: members ++ [Text.ofString "\x7d"])

/-- A property name is one where it stands in a member. -/
theorem Text.isPropertyName_asPropertyName (name : Text) : name.asPropertyName.IsPropertyName := by
  unfold Text.asPropertyName
  split_ifs with hident
  · exact .bare hident
  · exact .quoted name

/-- The line of a field is a member. -/
theorem Field.isMember_source (f : Field) : IsMember (indent ++ f.source) := by
  have hmark : (if f.optional then "?" else "" : Text) ∈ ([[], "?"] : List Text) := by
    cases f.optional <;> decide
  exact .mk f.type (Text.isPropertyName_asPropertyName f.name) hmark

/-- The lines of a declaration are an interface with its name. -/
theorem Declaration.isInterface_sourceLines (d : Declaration) :
    IsInterface d.name d.sourceLines := by
  refine .mk fun line hline => ?_
  obtain ⟨f, -, rfl⟩ := List.mem_map.1 hline
  exact f.isMember_source

/-! ## Names that differ -/

/-- The names of the inputs of one type and of the outputs of another are different. -/
theorem inputs_ne_outputs (s t : Text) :
    s ++ Text.ofString "Inputs" ≠ t ++ Text.ofString "Outputs" := by
  intro h
  -- Read from the end they differ at the fifth character.
  have hfifth : ((Text.ofString "Inputs").reverse ++ s.reverse)[4]? =
      ((Text.ofString "Outputs").reverse ++ t.reverse)[4]? := by
    rw [← List.reverse_append, ← List.reverse_append, h]
  exact absurd (Option.some.inj hfifth) (by decide)

/-- Two types share no name if they are different. -/
theorem disjoint_typeNames {s t : Text} : List.Disjoint (typeNames s) (typeNames t) ↔ s ≠ t := by
  constructor
  · rintro hdisjoint rfl
    exact hdisjoint List.mem_cons_self List.mem_cons_self
  · intro hne name hs ht
    simp only [typeNames, List.mem_cons, List.not_mem_nil, or_false] at hs ht
    rcases hs with rfl | rfl <;> rcases ht with h | h
    · exact hne (List.append_cancel_right h)
    · exact inputs_ne_outputs s t h
    · exact inputs_ne_outputs t s h.symm
    · exact hne (List.append_cancel_right h)

/-- The names of types are different if the types are. -/
theorem nodup_typeNames {types : List Text} : (types.flatMap typeNames).Nodup ↔ types.Nodup := by
  have hown : ∀ t : Text, (typeNames t).Nodup := fun t =>
    List.nodup_cons.2 ⟨fun h => inputs_ne_outputs t t (List.mem_singleton.1 h),
      List.nodup_singleton _⟩
  rw [List.nodup_flatMap, and_iff_right fun t _ => hown t]
  exact ⟨fun h => h.imp disjoint_typeNames.1, fun h => h.imp disjoint_typeNames.2⟩

/-! ## Names that are identifiers -/

/-- Behind a text that is not empty, what can be inside an identifier makes no difference. -/
theorem isIdentifier_append {t suffix : Text} (ht : t ≠ [])
    (hsuffix : suffix.all (·.satisfies Char.continuesIdentifier) = true) :
    (t ++ suffix).isIdentifier = t.isIdentifier := by
  cases t with
  | nil => exact absurd rfl ht
  | cons c t =>
    -- Only the first character has a rule of its own, and it is still the first.
    rw [List.cons_append, Text.isIdentifier, Text.isIdentifier, List.all_append, hsuffix,
      Bool.and_true]

/-- The names of types are identifiers if the types are. -/
theorem isIdentifier_typeNames {types : List Text} (h : ∀ t ∈ types, t ≠ []) :
    (∀ name ∈ types.flatMap typeNames, name.isIdentifier = true) ↔
      ∀ t ∈ types, t.isIdentifier = true := by
  rw [List.forall_mem_flatMap]
  refine forall₂_congr fun t ht => ?_
  rw [typeNames, List.forall_mem_cons, List.forall_mem_singleton,
    isIdentifier_append (h t ht) (by decide), isIdentifier_append (h t ht) (by decide), and_self]

/-! ## The names of a schema -/

/-- The declarations of resources have the names of the types that their tokens name. -/
theorem Declaration.names_ofResources {resources : List (Text × Resource)}
    {declarations : List Declaration} (h : ofResources resources = .ok declarations) :
    ∃ types, List.Forall₂ (fun entry type => NamesType entry.1 type) resources types ∧
      declarations.map name = types.flatMap typeNames := by
  induction resources generalizing declarations with
  | nil =>
    cases h
    exact ⟨[], .nil, rfl⟩
  | cons entry rest ih =>
    obtain ⟨token, resource⟩ := entry
    by_cases hnamed : ∃ type, NamesType token type
    · obtain ⟨type, htype⟩ := hnamed
      rw [ofResources, ofResource_of_names htype] at h
      cases hrest : ofResources rest with
      | error problem =>
        rw [hrest] at h
        cases h
      | ok others =>
        rw [hrest] at h
        cases h
        obtain ⟨types, htypes, hnames⟩ := ih hrest
        refine ⟨type :: types, .cons htype htypes, ?_⟩
        rw [List.map_append, hnames]
        rfl
    · -- A token that names no type leaves no declarations at all.
      rw [ofResources, ofResource_of_not_names (not_exists.1 hnamed)] at h
      cases h

/-- The types that tokens name are not empty. -/
theorem types_ne_nil {resources : List (Text × Resource)} {types : List Text}
    (h : List.Forall₂ (fun entry type => NamesType entry.1 type) resources types) :
    ∀ type ∈ types, type ≠ [] := by
  induction h with
  | nil => exact fun _ h => absurd h List.not_mem_nil
  | cons hfirst _ ih =>
    obtain ⟨_, _, _, _, hname⟩ := hfirst
    exact List.forall_mem_cons.2 ⟨hname, ih⟩

/-- There are two names for each type. -/
theorem length_typeNames (types : List Text) :
    (types.flatMap typeNames).length = 2 * types.length := by
  induction types with
  | nil => rfl
  | cons type types ih =>
    rw [List.flatMap_cons, List.length_append, ih, List.length_cons]
    show 2 + 2 * types.length = 2 * (types.length + 1)
    omega

/-- If its names are identifiers, a file is the comment and an interface for each name. -/
theorem DeclarationFile.source_interfaces {file : DeclarationFile}
    (h : ∀ d ∈ file.declarations, d.name.isIdentifier = true) :
    ∃ interfaces : List (List Text),
      Text.split (.char '\n') file.source =
        headerLines file.header ++ interfaces.flatten ++ [[]] ∧
      List.Forall₂ Declaration.IsInterface (file.declarations.map Declaration.name) interfaces := by
  -- A name that is an identifier does not break its line.
  have hfeed : ∀ d ∈ file.declarations, CodePoint.char '\n' ∉ d.name := fun d hd hmem =>
    absurd (continues_of_isIdentifier (h d hd) _ hmem) (by decide)
  refine ⟨file.declarations.map Declaration.sourceLines, ?_, ?_⟩
  · rw [split_source hfeed, sourceLines, List.flatMap_def]
  · rw [List.forall₂_map_left_iff, List.forall₂_map_right_iff, List.forall₂_same]
    exact fun d _ => d.isInterface_sourceLines

/-- The names of the declarations are those of the types that the tokens name, in order. They are
different if and only if the types are, and identifiers if and only if the types are; and the text
then is the comment and an interface under each name, two for each resource. -/
theorem Schema.declarations_names {schema : Schema} {header : Text} {file : DeclarationFile}
    (h : schema.declarations header = .ok file) :
    ∃ types, List.Forall₂ (fun entry type => NamesType entry.1 type) schema.resources types ∧
      file.declarations.map Declaration.name = types.flatMap typeNames ∧
      ((file.declarations.map Declaration.name).Nodup ↔ types.Nodup) ∧
      ((∀ d ∈ file.declarations, d.name.isIdentifier = true) ↔
        ∀ type ∈ types, type.isIdentifier = true) ∧
      ((∀ type ∈ types, type.isIdentifier = true) → ∃ interfaces : List (List Text),
        Text.split (.char '\n') file.source =
          DeclarationFile.headerLines header ++ interfaces.flatten ++ [[]] ∧
        List.Forall₂ Declaration.IsInterface (types.flatMap typeNames) interfaces ∧
        interfaces.length = 2 * schema.resources.length) := by
  unfold Schema.declarations at h
  cases hdeclarations : Declaration.ofResources schema.resources with
  | error problem =>
    rw [hdeclarations] at h
    cases h
  | ok declarations =>
    rw [hdeclarations] at h
    cases h
    obtain ⟨types, htypes, hnames⟩ := Declaration.names_ofResources hdeclarations
    have hident : (∀ d ∈ declarations, d.name.isIdentifier = true) ↔
        ∀ type ∈ types, type.isIdentifier = true := by
      rw [← isIdentifier_typeNames (types_ne_nil htypes), ← hnames, List.forall_mem_map]
    refine ⟨types, htypes, hnames, ?_, hident, fun hall => ?_⟩
    · show (declarations.map Declaration.name).Nodup ↔ types.Nodup
      rw [hnames, nodup_typeNames]
    · have hidentifiers : ∀ d ∈ (DeclarationFile.mk header declarations).declarations,
          d.name.isIdentifier = true := hident.2 hall
      obtain ⟨interfaces, htext, hinterfaces⟩ := DeclarationFile.source_interfaces hidentifiers
      rw [hnames] at hinterfaces
      refine ⟨interfaces, htext, hinterfaces, ?_⟩
      rw [← hinterfaces.length_eq, length_typeNames, ← htypes.length_eq]

/-- Of two tokens that name different identifiers, the four names are different identifiers. -/
theorem Schema.declarations_names_usable :
    ∃ file, Schema.declarations ⟨[("store:index:Bucket", {}), ("store:index:Object", {})], []⟩
        Declaration.warningHeader = .ok file ∧
      (file.declarations.map Declaration.name).Nodup ∧
      ∀ d ∈ file.declarations, d.name.isIdentifier = true := by
  obtain ⟨file, hfile⟩ : ∃ file, Schema.declarations
      ⟨[("store:index:Bucket", {}), ("store:index:Object", {})], []⟩
      Declaration.warningHeader = .ok file := ⟨_, rfl⟩
  obtain ⟨types, htypes, -, hnodup, hident, -⟩ := declarations_names hfile
  -- A token names one type only, so the types of the theorem are these two.
  have hbucket : NamesType "store:index:Bucket" "Bucket" := ⟨_, _, _, rfl, by decide⟩
  have hobject : NamesType "store:index:Object" "Object" := ⟨_, _, _, rfl, by decide⟩
  obtain ⟨_, _, hfirst, hrest, rfl⟩ := List.forall₂_cons_left_iff.1 htypes
  obtain ⟨_, _, hsecond, hnone, rfl⟩ := List.forall₂_cons_left_iff.1 hrest
  obtain rfl := List.forall₂_nil_left_iff.1 hnone
  obtain rfl := Declaration.names_unique hfirst hbucket
  obtain rfl := Declaration.names_unique hsecond hobject
  exact ⟨file, hfile, hnodup.2 (by decide), hident.2 (by decide)⟩

/-- Tokens of two packages name one type, and a third token names a type that is no identifier. -/
theorem Schema.declarations_names_clash :
    ∃ file, Schema.declarations
        ⟨[("store:index:Bucket", {}), ("cloud:disk:Bucket", {}),
          ("store:index:bucket-tag", {})], []⟩
        Declaration.warningHeader = .ok file ∧
      ¬ (file.declarations.map Declaration.name).Nodup ∧
      ¬ ∀ d ∈ file.declarations, d.name.isIdentifier = true := by
  refine ⟨_, rfl, ?_, ?_⟩
  · decide
  · decide

end ProviderKit
