import Mathlib.Data.List.Forall2
import Mathlib.Data.List.Nodup
import ProviderKit.Json.Basic
import ProviderKit.Schema.Shape

/-!
# Which documents are schemas

The shape of a schema, said of a JSON document without the checks that look for it
(`Json.IsSchema`), and what a schema holds of the document that it was made of (`Schema.Holds`).
`Schema.ofValue_accepts` says that the checks accept the documents of that shape and no others, and
that nothing of an accepted document is lost: names and tokens keep their order, and what has no
place of its own is among the extra entries of its level.

An object of a document that has been read holds each key once. That is asked for here
(`Json.Keyed`), since the members of an object are a list.

The proof goes from the checks to the document in two steps. Each check has an equation that says
when it passes, in terms of the checks of its parts (`property_eq_ok`, `resource_eq_ok`,
`ofValue_eq_ok`). From these follow, level by level, that what is accepted holds what the document
says and that what a well-formed document says is accepted. Which documents say something at all is
then a question about `Schema.Holds` alone (`exists_holds_iff`).
-/

namespace ProviderKit

/-! ## Checks that pass -/

namespace Checked

variable {α β : Type}

/-- A check that is seen from further out passes if it passes by itself. -/
theorem under_eq_ok {step : Step} {check : Checked α} {a : α} :
    under step check = .ok a ↔ check = .ok a := by
  cases check <;> simp [under]

/-- Two checks side by side pass if each of them does. -/
theorem both_eq_ok {x : Checked α} {y : Checked β} {a : α} {b : β} :
    both x y = .ok (a, b) ↔ x = .ok a ∧ y = .ok b := by
  cases x <;> cases y <;> simp [both]

/-- What is made of a check is there if the check passes. -/
theorem map_eq_ok {f : α → β} {check : Checked α} {b : β} :
    f <$> check = .ok b ↔ ∃ a, check = .ok a ∧ f a = b := by
  cases check <;> simp [Functor.map, Except.map]

/-- The checks of a list pass if each of them does. -/
theorem all_eq_ok {checks : List (Checked α)} {results : List α} :
    all checks = .ok results ↔ List.Forall₂ (fun check a => check = .ok a) checks results := by
  induction checks generalizing results with
  | nil =>
    rw [all, List.forall₂_nil_left_iff, eq_comm, Except.ok.injEq]
  | cons check checks ih =>
    rw [all, map_eq_ok]
    constructor
    · rintro ⟨⟨a, rest⟩, h, rfl⟩
      obtain ⟨hfirst, hrest⟩ := both_eq_ok.1 h
      exact .cons hfirst (ih.1 hrest)
    · rintro (_ | ⟨hfirst, hrest⟩)
      exact ⟨(_, _), both_eq_ok.2 ⟨hfirst, ih.2 hrest⟩, rfl⟩

end Checked

/-! ## Relations between options and between lists -/

section Relations

variable {α β : Type} {R S : α → β → Prop}

/-- What is related in one way is related in another if that follows for what there is. -/
theorem rel_imp {found : Option α} {given : Option β} (h : Option.Rel R found given)
    (himp : ∀ a, ∀ b ∈ given, R a b → S a b) : Option.Rel S found given := by
  cases h with
  | none => exact .none
  | some h => exact .some (himp _ _ rfl h)

/-- Something is related to an option if something is related to what there is. -/
theorem exists_rel_iff {given : Option β} :
    (∃ found, Option.Rel R found given) ↔ ∀ b ∈ given, ∃ a, R a b := by
  cases given with
  | none => exact ⟨fun _ _ h => (Option.not_mem_none _ h).elim, fun _ => ⟨none, .none⟩⟩
  | some b =>
    constructor
    · rintro ⟨_, h | _⟩ _ ⟨⟩
      exact ⟨_, h⟩
    · intro h
      obtain ⟨a, ha⟩ := h b rfl
      exact ⟨some a, .some ha⟩

/-- The items of two lists are related in one way if they are in another from which that follows
for the items of the second list. -/
theorem forall₂_imp_mem {l : List α} {l' : List β} (h : List.Forall₂ R l l')
    (himp : ∀ a, ∀ b ∈ l', R a b → S a b) : List.Forall₂ S l l' := by
  induction h with
  | nil => exact .nil
  | cons hfirst _ ih =>
    exact .cons (himp _ _ List.mem_cons_self hfirst)
      (ih fun a b hb => himp a b (List.mem_cons_of_mem _ hb))

/-- A list is related to another if something is related to each item of the other. -/
theorem exists_forall₂_iff {l' : List β} :
    (∃ l, List.Forall₂ R l l') ↔ ∀ b ∈ l', ∃ a, R a b := by
  induction l' with
  | nil => exact ⟨fun _ _ h => (List.not_mem_nil h).elim, fun _ => ⟨[], .nil⟩⟩
  | cons b l' ih =>
    rw [List.forall_mem_cons, ← ih]
    constructor
    · rintro ⟨_, _ | ⟨hfirst, hrest⟩⟩
      exact ⟨⟨_, hfirst⟩, _, hrest⟩
    · rintro ⟨⟨a, hfirst⟩, l, hrest⟩
      exact ⟨a :: l, .cons hfirst hrest⟩

end Relations

/-! ## Documents -/

namespace Json

mutual

/-- Every object in the document holds each key once. -/
def Keyed : Json → Prop
  | null | bool _ | int _ | float _ | text _ => True
  | array items => KeyedItems items
  | object members => (members.map Prod.fst).Nodup ∧ KeyedMembers members

/-- Every object in the items of an array holds each key once. -/
def KeyedItems : List Json → Prop
  | [] => True
  | item :: items => item.Keyed ∧ KeyedItems items

/-- Every object in the values of members holds each key once. -/
def KeyedMembers : List (Text × Json) → Prop
  | [] => True
  | (_, value) :: members => value.Keyed ∧ KeyedMembers members

end

mutual

/-- No text in the document, keys included, holds a lone surrogate. -/
def IsWellFormed : Json → Prop
  | null | bool _ | int _ | float _ => True
  | text t => t.isWellFormed = true
  | array items => WellFormedItems items
  | object members => WellFormedMembers members

/-- No text in the items of an array holds a lone surrogate. -/
def WellFormedItems : List Json → Prop
  | [] => True
  | item :: items => item.IsWellFormed ∧ WellFormedItems items

/-- No text in the members of an object holds a lone surrogate. -/
def WellFormedMembers : List (Text × Json) → Prop
  | [] => True
  | (key, value) :: members =>
    key.isWellFormed = true ∧ value.IsWellFormed ∧ WellFormedMembers members

end

mutual

/-- Whether every object in the document holds each key once. -/
instance decidableKeyed : (j : Json) → Decidable j.Keyed
  | null | bool _ | int _ | float _ | text _ => .isTrue trivial
  | array items => decidableKeyedItems items
  | object members => @instDecidableAnd _ _ inferInstance (decidableKeyedMembers members)

/-- Whether every object in the items of an array holds each key once. -/
instance decidableKeyedItems : (items : List Json) → Decidable (KeyedItems items)
  | [] => .isTrue trivial
  | item :: items => @instDecidableAnd _ _ (decidableKeyed item) (decidableKeyedItems items)

/-- Whether every object in the values of members holds each key once. -/
instance decidableKeyedMembers : (members : List (Text × Json)) → Decidable (KeyedMembers members)
  | [] => .isTrue trivial
  | (_, value) :: members =>
    @instDecidableAnd _ _ (decidableKeyed value) (decidableKeyedMembers members)

end

mutual

/-- Whether no text in the document holds a lone surrogate. -/
instance decidableIsWellFormed : (j : Json) → Decidable j.IsWellFormed
  | null | bool _ | int _ | float _ => .isTrue trivial
  | text t => inferInstanceAs (Decidable (t.isWellFormed = true))
  | array items => decidableWellFormedItems items
  | object members => decidableWellFormedMembers members

/-- Whether no text in the items of an array holds a lone surrogate. -/
instance decidableWellFormedItems : (items : List Json) → Decidable (WellFormedItems items)
  | [] => .isTrue trivial
  | item :: items =>
    @instDecidableAnd _ _ (decidableIsWellFormed item) (decidableWellFormedItems items)

/-- Whether no text in the members of an object holds a lone surrogate. -/
instance decidableWellFormedMembers :
    (members : List (Text × Json)) → Decidable (WellFormedMembers members)
  | [] => .isTrue trivial
  | (key, value) :: members =>
    @instDecidableAnd _ _ (inferInstanceAs (Decidable (key.isWellFormed = true)))
      (@instDecidableAnd _ _ (decidableIsWellFormed value) (decidableWellFormedMembers members))

end

variable {members : List (Text × Json)}

/-- The values of keyed members are keyed. -/
theorem KeyedMembers.value (h : KeyedMembers members) {member : Text × Json}
    (hmember : member ∈ members) : member.2.Keyed := by
  induction members with
  | nil => cases hmember
  | cons first members ih =>
    rcases List.mem_cons.1 hmember with rfl | hlater
    · exact h.1
    · exact ih h.2 hlater

/-- Of well-formed members the keys and the values are well-formed. -/
theorem WellFormedMembers.member (h : WellFormedMembers members) {member : Text × Json}
    (hmember : member ∈ members) : member.1.isWellFormed = true ∧ member.2.IsWellFormed := by
  induction members with
  | nil => cases hmember
  | cons first members ih =>
    rcases List.mem_cons.1 hmember with rfl | hlater
    · exact ⟨h.1, h.2.1⟩
    · exact ih h.2.2 hlater

/-- What is found under a key is a member. -/
theorem mem_of_lookup {key : Text} {value : Json} (h : lookup key members = some value) :
    (key, value) ∈ members := by
  induction members with
  | nil => cases h
  | cons first members ih =>
    obtain ⟨k, v⟩ := first
    rw [lookup] at h
    split at h
    next hkey =>
      cases h
      rw [hkey]
      exact List.mem_cons_self
    next => exact List.mem_cons_of_mem _ (ih h)

/-- Under the key of a member something is found. -/
theorem lookup_isSome {member : Text × Json} (h : member ∈ members) :
    (lookup member.1 members).isSome = true := by
  induction members with
  | nil => cases h
  | cons first members ih =>
    obtain ⟨k, v⟩ := first
    rw [lookup]
    split
    · rfl
    next hkey =>
      rcases List.mem_cons.1 h with rfl | hlater
      · exact absurd rfl hkey
      · exact ih hlater

/-- The entries of the members of an object, one by one. -/
theorem membersToEntries_eq (members : List (Text × Json)) :
    membersToEntries members = members.map fun member => (.text member.1, member.2.toValue) := by
  induction members with
  | nil => rfl
  | cons member members ih => rw [membersToEntries, ih, List.map_cons]

/-- The values of the items of an array, one by one. -/
theorem itemsToValues_eq (items : List Json) : itemsToValues items = items.map toValue := by
  induction items with
  | nil => rfl
  | cons item items ih => rw [itemsToValues, ih, List.map_cons]

/-- What is found under a key among the entries is found among the members. -/
theorem lookup_membersToEntries (key : Text) (members : List (Text × Json)) :
    Value.lookup key (membersToEntries members) = (lookup key members).map toValue := by
  induction members with
  | nil => rfl
  | cons member members ih =>
    rw [membersToEntries, Value.lookup, lookup]
    split
    · rfl
    · exact ih

/-! ## The shape of a schema -/

/-- What is given under a key; null is as good as nothing. -/
def given (key : Text) (members : List (Text × Json)) : Option Json :=
  match lookup key members with
  | some null => none
  | found => found

/-- What is given under a key is the value of a member. -/
theorem mem_of_given {key : Text} {j : Json} (h : j ∈ given key members) : (key, j) ∈ members := by
  unfold given at h
  split at h
  · cases h
  · exact mem_of_lookup h

/-- The document is an object, whatever its members. -/
def IsObject (j : Json) : Prop := ∃ members, j = object members

/-- The document is an array of texts. -/
def IsTexts (j : Json) : Prop := ∃ names : List Text, j = array (names.map text)

/-- The key under which an object holds what has two spellings: the second one counts only where
the first one is absent. -/
def spelling (first second : Text) (members : List (Text × Json)) : Text :=
  if (lookup first members).isSome then first else second

/-- The key of the input properties of a resource. -/
def inputsKey : List (Text × Json) → Text := spelling "inputProperties" "input_properties"

/-- The key of the list of the required inputs of a resource. -/
def requiredInputsKey : List (Text × Json) → Text := spelling "requiredInputs" "required_inputs"

/-- The members are those of a resource. -/
structure IsResource (members : List (Text × Json)) : Prop where
  properties : ∀ j ∈ given "properties" members, j.IsObject
  required : ∀ j ∈ given "required" members, j.IsTexts
  inputProperties : ∀ j ∈ given (inputsKey members) members, j.IsObject
  requiredInputs : ∀ j ∈ given (requiredInputsKey members) members, j.IsTexts

/-- The document is an object of which every value is a resource. -/
def IsResources (j : Json) : Prop :=
  ∃ entries, j = object entries ∧
    ∀ entry ∈ entries, ∃ members, entry.2 = object members ∧ IsResource members

/-- The document has the shape of a schema. -/
def IsSchema (j : Json) : Prop :=
  ∃ members, j = object members ∧ ∀ j ∈ given "resources" members, j.IsResources

/-! ## What a schema holds -/

/-- The entries of an object that are under none of the keys, with their values. -/
def others (keys : List Text) (members : List (Text × Json)) : List (Text × Value) :=
  (members.filter fun member => !keys.contains member.1).map fun member =>
    (member.1, member.2.toValue)

/-- The things belong to the members of an object, one to each in its order and under its key. -/
def Named {α : Type} (holds : α → Json → Prop) (entries : List (Text × α))
    (members : List (Text × Json)) : Prop :=
  List.Forall₂ (fun entry member => entry.1 = member.1 ∧ holds entry.2 member.2) entries members

end Json

open Json (given inputsKey requiredInputsKey others Named)

/-- The property holds what its schema says: of an object the `type` and all other members, and of
anything else nothing. -/
def Property.Holds (p : Property) : Json → Prop
  | .object members =>
    p.type = ((Json.lookup "type" members).getD .null).toValue ∧ p.extra = others ["type"] members
  | _ => p = {}

/-- The properties are those of a group. -/
def Property.HoldGroup (properties : List (Text × Property)) (j : Json) : Prop :=
  ∃ members, j = .object members ∧ Named Property.Holds properties members

/-- The names are those of an array. -/
def Resource.HoldNames (names : List Text) (j : Json) : Prop := j = .array (names.map .text)

/-- The resource holds what the members say. -/
structure Resource.Holds (r : Resource) (members : List (Text × Json)) : Prop where
  properties : Option.Rel Property.HoldGroup r.properties (given "properties" members)
  required : Option.Rel HoldNames r.required (given "required" members)
  inputProperties :
    Option.Rel Property.HoldGroup r.inputProperties (given (inputsKey members) members)
  requiredInputs :
    Option.Rel HoldNames r.requiredInputs (given (requiredInputsKey members) members)
  extra : r.extra =
    others ["properties", "required", inputsKey members, requiredInputsKey members] members

/-- The resources are those of an object. -/
def Resource.HoldAll (resources : List (Text × Resource)) (j : Json) : Prop :=
  ∃ entries, j = .object entries ∧
    Named (fun r j => ∃ members, j = .object members ∧ r.Holds members) resources entries

/-- The schema holds what the members say. -/
structure Schema.Holds (s : Schema) (members : List (Text × Json)) : Prop where
  resources : ∃ resources, s.resources = resources.getD [] ∧
    Option.Rel Resource.HoldAll resources (given "resources" members)
  extra : s.extra = others ["resources"] members

namespace Schema

open Json (KeyedMembers WellFormedMembers lookup membersToEntries spelling)

variable {α : Type} {members : List (Text × Json)}

/-! ## Extra entries -/

/-- All keys of the members are well-formed. -/
def KeysWellFormed (members : List (Text × Json)) : Prop :=
  ∀ member ∈ members, member.1.isWellFormed = true

instance (members : List (Text × Json)) : Decidable (KeysWellFormed members) :=
  inferInstanceAs (Decidable (∀ member ∈ members, member.1.isWellFormed = true))

/-- The keys of all members are well-formed if the first one is and those of the others are. -/
theorem keysWellFormed_cons {key : Text} {value : Json} :
    KeysWellFormed ((key, value) :: members) ↔
      key.isWellFormed = true ∧ KeysWellFormed members := List.forall_mem_cons

/-- Under keys of which the same belong to members the same is left. -/
theorem others_congr {keys keys' : List Text}
    (h : ∀ member ∈ members, member.1 ∈ keys ↔ member.1 ∈ keys') :
    others keys members = others keys' members := by
  unfold others
  congr 1
  refine List.filter_congr fun member hmember => ?_
  rw [Bool.eq_iff_iff, Bool.not_eq_true', Bool.not_eq_true', ← Bool.not_eq_true,
    ← Bool.not_eq_true, List.contains_iff_mem, List.contains_iff_mem, h member hmember]

/-- The extra entries of a level are the other members, if the keys of all members are well-formed;
else there are none. -/
theorem extraEntries_members (keys : List Text) (members : List (Text × Json)) :
    extraEntries keys (membersToEntries members) =
      if KeysWellFormed members then .ok (.ok (others keys members))
      else .error (.here .wellFormedText) := by
  induction members with
  | nil => rfl
  | cons member members ih =>
    obtain ⟨key, value⟩ := member
    rw [membersToEntries, extraEntries, ih]
    simp only [keysWellFormed_cons]
    -- One key that is not well-formed spoils the level, also if a part reads it.
    by_cases hkey : key.isWellFormed = true
    · by_cases hall : KeysWellFormed members
      · by_cases hread : key ∈ keys
        · simp [bind, Except.bind, pure, Except.pure, hkey, hall, hread, others]
        · simp [bind, Except.bind, pure, Except.pure, hkey, hall, hread, others, Functor.map,
            Except.map]
      · simp [bind, Except.bind, hkey, hall]
    · simp [hkey]

/-- A level is accepted if its own part is and the keys of all its members are well-formed. -/
theorem withExtra_eq_ok {own : Checked α} {keys : List Text} {a : α}
    {extra : List (Text × Value)} :
    withExtra own keys (membersToEntries members) = .ok (a, extra) ↔
      own = .ok a ∧ KeysWellFormed members ∧ extra = others keys members := by
  unfold withExtra
  rw [extraEntries_members]
  by_cases hall : KeysWellFormed members
  · rw [if_pos hall]
    dsimp only
    rw [Checked.both_eq_ok, Except.ok.injEq, eq_comm (a := extra)]
    simp only [hall, true_and]
  · simp [hall]

/-! ## Properties -/

/-- A property schema is accepted if its keys are well-formed, and the property then holds what it
says. -/
theorem property_eq_ok {j : Json} {p : Property} :
    property j.toValue = .ok p ↔
      p.Holds j ∧ ∀ members, j = .object members → KeysWellFormed members := by
  cases j with
  | object members =>
    rw [Json.toValue, property, Checked.map_eq_ok, Json.lookup_membersToEntries]
    obtain ⟨type, extra⟩ := p
    constructor
    · rintro ⟨⟨t, e⟩, h, hp⟩
      obtain ⟨htype, hkeys, hextra⟩ := withExtra_eq_ok.1 h
      cases hp
      cases htype
      refine ⟨⟨?_, hextra⟩, fun _ h => by cases h; exact hkeys⟩
      show (Option.map Json.toValue _).getD .null = _
      cases lookup "type" members <;> rfl
    · rintro ⟨⟨htype, hextra⟩, hkeys⟩
      refine ⟨(type, extra), withExtra_eq_ok.2 ⟨?_, hkeys members rfl, hextra⟩, rfl⟩
      rw [show type = _ from htype]
      cases lookup "type" members <;> rfl
  | _ =>
    -- What is no object is taken for one without members.
    show Except.ok {} = Except.ok p ↔ p = {} ∧ _
    rw [Except.ok.injEq, eq_comm]
    exact (and_iff_left fun _ h => by cases h).symm

/-! ## Things under names -/

/-- A name that is new goes to the end. -/
theorem insertNamed_new {name : Text} (item : α) {entries : List (Text × α)}
    (h : name ∉ entries.map Prod.fst) :
    insertNamed name item entries = entries ++ [(name, item)] := by
  induction entries with
  | nil => rfl
  | cons head entries ih =>
    obtain ⟨n, a⟩ := head
    rw [List.map_cons, List.mem_cons, not_or] at h
    rw [insertNamed, if_neg (Ne.symm h.1), ih h.2]
    rfl

/-- Entries with different names are collected as they are. -/
theorem collect_nodup {entries : List (Text × α)} (h : (entries.map Prod.fst).Nodup) :
    collect entries = entries := by
  -- By induction on what is left, with what has been collected in front of it.
  have hfold : ∀ done : List (Text × α), ((done ++ entries).map Prod.fst).Nodup →
      entries.foldl (fun done entry => insertNamed entry.1 entry.2 done) done =
        done ++ entries := by
    clear h
    induction entries with
    | nil => intro done _; exact (List.append_nil done).symm
    | cons head entries ih =>
      intro done hdone
      have hnew : head.1 ∉ done.map Prod.fst := by
        rw [List.map_append, List.nodup_append'] at hdone
        intro hmem
        exact hdone.2.2 hmem (by simp)
      rw [List.foldl_cons, insertNamed_new head.2 hnew, ih _ (by simpa using hdone),
        List.append_assoc]
      rfl
  exact hfold [] h

/-- Entries that belong to members have their names. -/
theorem names_of_named {holds : α → Json → Prop} {entries : List (Text × α)}
    (h : Named holds entries members) : entries.map Prod.fst = members.map Prod.fst := by
  induction h with
  | nil => rfl
  | cons hfirst _ ih => rw [List.map_cons, List.map_cons, ih, hfirst.1]

/-- Things under names are accepted from an object if each of them is. -/
theorem named_eq_ok {item : Value → Checked α} {j : Json} (hkeyed : j.Keyed)
    {entries : List (Text × α)} :
    named item j.toValue = .ok entries ↔
      ∃ members, j = .object members ∧
        Named (fun a value => item value.toValue = .ok a) entries members := by
  cases j with
  | object members =>
    -- What passes is collected under its names, which changes nothing since they are different.
    have hchecks : ∀ results : List (Text × α),
        Checked.all ((membersToEntries members).map fun entry =>
            Checked.under (.ofKey entry.1) (Checked.both
              (Checked.under .toKey (.ofRule entry.1.asText)) (item entry.2))) = .ok results ↔
          Named (fun a value => item value.toValue = .ok a) results members := by
      intro results
      rw [Checked.all_eq_ok, Json.membersToEntries_eq, List.map_map, List.forall₂_map_left_iff]
      constructor
      · refine fun h => .flip (h.imp fun member result hresult => ?_)
        obtain ⟨hname, hitem⟩ := Checked.both_eq_ok.1 (Checked.under_eq_ok.1 hresult)
        exact ⟨(Except.ok.inj (Checked.under_eq_ok.1 hname)).symm, hitem⟩
      · refine fun h => .flip (h.imp fun result member hresult => ?_)
        obtain ⟨name, a⟩ := result
        obtain ⟨rfl, hitem⟩ := hresult
        exact Checked.under_eq_ok.2 (Checked.both_eq_ok.2 ⟨rfl, hitem⟩)
    rw [Json.toValue, named, Checked.map_eq_ok]
    constructor
    · rintro ⟨results, hresults, rfl⟩
      have hnamed := (hchecks results).1 hresults
      rw [collect_nodup (by rw [names_of_named hnamed]; exact hkeyed.1)]
      exact ⟨members, rfl, hnamed⟩
    · rintro ⟨_, ⟨⟩, hnamed⟩
      exact ⟨entries, (hchecks entries).2 hnamed,
        collect_nodup (by rw [names_of_named hnamed]; exact hkeyed.1)⟩
  | _ =>
    constructor
    · intro h
      cases h
    · rintro ⟨_, ⟨⟩, _⟩

/-! ## Texts -/

/-- A document is a text if its value is taken for one. -/
theorem asText_eq_ok {j : Json} {t : Text} : j.toValue.asText = .ok t ↔ j = .text t := by
  cases j <;> simp [Json.toValue, Value.asText]

/-- Items are accepted as texts, wherever they stand, if they are texts. -/
theorem textsFrom_eq_ok {index : Nat} {items : List Json} {names : List Text} :
    textsFrom index (items.map Json.toValue) = .ok names ↔ items = names.map .text := by
  induction items generalizing index names with
  | nil => cases names <;> simp [textsFrom]
  | cons item items ih =>
    have hrule : ∀ t : Text, (Checked.ofRule item.toValue.asText = .ok t) ↔ item = .text t := by
      intro t
      rw [← asText_eq_ok]
      cases item.toValue.asText <;> simp [Checked.ofRule, Checked.broken]
    rw [List.map_cons, textsFrom, Checked.map_eq_ok]
    constructor
    · rintro ⟨⟨t, ts⟩, h, rfl⟩
      obtain ⟨hfirst, hrest⟩ := Checked.both_eq_ok.1 h
      rw [(hrule t).1 (Checked.under_eq_ok.1 hfirst), ih.1 hrest, List.map_cons]
    · intro h
      cases names with
      | nil => cases h
      | cons t ts =>
        obtain ⟨hfirst, hrest⟩ := List.cons.inj h
        exact ⟨(t, ts), Checked.both_eq_ok.2
          ⟨Checked.under_eq_ok.2 ((hrule t).2 hfirst), ih.2 hrest⟩, rfl⟩

/-- Texts are accepted from an array of texts only. -/
theorem texts_eq_ok {j : Json} {names : List Text} :
    texts j.toValue = .ok names ↔ Resource.HoldNames names j := by
  cases j with
  | array items =>
    rw [Json.toValue, Json.itemsToValues_eq, texts, textsFrom_eq_ok, Resource.HoldNames,
      Json.array.injEq]
  | _ => simp [Json.toValue, texts, Resource.HoldNames, Checked.broken]

/-! ## Parts -/

/-- A part is read from what is given under its key. -/
theorem part_eq_ok {key : Text} {item : Value → Checked α} {found : Option α} :
    (part [key] (membersToEntries members) item).1 = .ok found ↔
      Option.Rel (fun a j => item j.toValue = .ok a) found (given key members) := by
  -- Null is taken like an absent key: there is nothing to read, so that nothing is refused.
  have hnone : ∀ found : Option α, (Except.ok none : Checked (Option α)) = .ok found ↔
      Option.Rel (fun a j => item (Json.toValue j) = .ok a) found none := by
    intro found
    constructor
    · intro h
      cases h
      exact .none
    · rintro ⟨⟩
      rfl
  have hsome : ∀ j : Json, Checked.under (.name key) (some <$> item j.toValue) = .ok found ↔
      Option.Rel (fun a j => item (Json.toValue j) = .ok a) found (some j) := by
    intro j
    rw [Checked.under_eq_ok, Checked.map_eq_ok]
    constructor
    · rintro ⟨a, ha, rfl⟩
      exact .some ha
    · rintro (h | _)
      exact ⟨_, h, rfl⟩
  unfold part given
  cases hlookup : lookup key members with
  | none => simpa [List.find?, Json.lookup_membersToEntries, hlookup] using hnone found
  | some j =>
    simp only [List.find?, Json.lookup_membersToEntries, hlookup, Option.map_some,
      Option.isSome_some, Option.getD_some]
    cases j with
    | null => exact hnone found
    | _ => exact hsome _

/-- The keys that a part reads are those of the members under its key. -/
theorem mem_part {key : Text} {item : Value → Checked α} {member : Text × Json}
    (h : member ∈ members) :
    member.1 ∈ (part [key] (membersToEntries members) item).2 ↔ member.1 = key := by
  unfold part
  cases hlookup : lookup key members with
  | none =>
    simp only [List.find?, Json.lookup_membersToEntries, hlookup, Option.map_none,
      Option.isSome_none, List.not_mem_nil, false_iff]
    rintro rfl
    have hfound := Json.lookup_isSome h
    rw [hlookup] at hfound
    cases hfound
  | some j => simp [List.find?, Json.lookup_membersToEntries, hlookup]

/-- A part with two spellings is read from the one that counts. -/
theorem part_spelling {first second : Text} {item : Value → Checked α} :
    part [first, second] (membersToEntries members) item =
      part [spelling first second members] (membersToEntries members) item := by
  unfold part spelling
  cases hfirst : lookup first members <;>
    simp [List.find?, Json.lookup_membersToEntries, hfirst]

/-! ## Resources and schemas -/

/-- A value is accepted as a thing. -/
def Reads (item : Value → Checked α) (a : α) (j : Json) : Prop := item j.toValue = .ok a

/-- A resource is accepted if its groups and lists are and all its keys are well-formed. -/
theorem resource_eq_ok {r : Resource} :
    resource (Json.object members).toValue = .ok r ↔
      Option.Rel (Reads (named property)) r.properties (given "properties" members) ∧
      Option.Rel (Reads texts) r.required (given "required" members) ∧
      Option.Rel (Reads (named property)) r.inputProperties (given (inputsKey members) members) ∧
      Option.Rel (Reads texts) r.requiredInputs (given (requiredInputsKey members) members) ∧
      KeysWellFormed members ∧
      r.extra = others
        ["properties", "required", inputsKey members, requiredInputsKey members] members := by
  -- A part that is absent reads no key at all, but then no member has that key.
  have hread : others
      ((part ["properties"] (membersToEntries members) (named property)).2 ++
        (part ["required"] (membersToEntries members) texts).2 ++
        (part [inputsKey members] (membersToEntries members) (named property)).2 ++
        (part [requiredInputsKey members] (membersToEntries members) texts).2) members =
      others ["properties", "required", inputsKey members, requiredInputsKey members] members := by
    refine others_congr fun member hmember => ?_
    simp only [List.mem_append, mem_part hmember, List.mem_cons, List.not_mem_nil, or_false,
      or_assoc]
  rw [Json.toValue, resource, Checked.map_eq_ok]
  simp only [part_spelling]
  rw [← inputsKey, ← requiredInputsKey]
  constructor
  · rintro ⟨⟨⟨properties, required, inputProperties, requiredInputs⟩, extra⟩, h, rfl⟩
    obtain ⟨hown, hkeys, hextra⟩ := withExtra_eq_ok.1 h
    simp only [Checked.both_eq_ok, part_eq_ok] at hown
    obtain ⟨hproperties, hrequired, hinputProperties, hrequiredInputs⟩ := hown
    exact ⟨hproperties, hrequired, hinputProperties, hrequiredInputs, hkeys,
      hextra.trans hread⟩
  · rintro ⟨hproperties, hrequired, hinputProperties, hrequiredInputs, hkeys, hextra⟩
    refine ⟨((r.properties, r.required, r.inputProperties, r.requiredInputs), r.extra),
      withExtra_eq_ok.2 ⟨?_, hkeys, hextra.trans hread.symm⟩, rfl⟩
    simp only [Checked.both_eq_ok, part_eq_ok]
    exact ⟨hproperties, hrequired, hinputProperties, hrequiredInputs⟩

/-- A schema is accepted from an object if its resources are and all its keys are well-formed. -/
theorem ofValue_eq_ok {j : Json} {s : Schema} :
    ofValue j.toValue = .ok s ↔
      ∃ members, j = .object members ∧
        (∃ resources, s.resources = resources.getD [] ∧
          Option.Rel (Reads (named resource)) resources (given "resources" members)) ∧
        KeysWellFormed members ∧ s.extra = others ["resources"] members := by
  cases j with
  | object members =>
    have hread : others (part ["resources"] (membersToEntries members) (named resource)).2 members =
        others ["resources"] members := by
      refine others_congr fun member hmember => ?_
      rw [mem_part hmember, List.mem_singleton]
    rw [Json.toValue, ofValue, ofEntries, Checked.map_eq_ok]
    constructor
    · rintro ⟨⟨resources, extra⟩, h, rfl⟩
      obtain ⟨hown, hkeys, hextra⟩ := withExtra_eq_ok.1 h
      exact ⟨members, rfl, ⟨resources, rfl, part_eq_ok.1 hown⟩, hkeys, hextra.trans hread⟩
    · rintro ⟨_, ⟨⟩, ⟨resources, hresources, hown⟩, hkeys, hextra⟩
      refine ⟨(resources, s.extra),
        withExtra_eq_ok.2 ⟨part_eq_ok.2 hown, hkeys, hextra.trans hread.symm⟩, ?_⟩
      show (⟨resources.getD [], s.extra⟩ : Schema) = s
      rw [← hresources]
  | _ =>
    constructor
    · intro h
      cases h
    · rintro ⟨_, ⟨⟩, _⟩

/-! ## What is accepted holds what the document says -/

/-- The properties that are accepted are those of the document. -/
theorem holdGroup_of_reads {j : Json} {properties : List (Text × Property)} (hkeyed : j.Keyed)
    (h : Reads (named property) properties j) : Property.HoldGroup properties j := by
  obtain ⟨members, rfl, hnamed⟩ := (named_eq_ok hkeyed).1 h
  exact ⟨members, rfl, hnamed.imp fun _ _ h => ⟨h.1, (property_eq_ok.1 h.2).1⟩⟩

/-- A resource that is accepted is that of the document. -/
theorem holds_of_resource {r : Resource} (hkeyed : (Json.object members).Keyed)
    (h : resource (Json.object members).toValue = .ok r) : r.Holds members := by
  obtain ⟨hproperties, hrequired, hinputProperties, hrequiredInputs, -, hextra⟩ :=
    resource_eq_ok.1 h
  have hgroup : ∀ key, ∀ j ∈ given key members, ∀ properties,
      Reads (named property) properties j → Property.HoldGroup properties j :=
    fun key j hj properties => holdGroup_of_reads (hkeyed.2.value (Json.mem_of_given hj))
  exact {
    properties := rel_imp hproperties fun properties j hj => hgroup _ j hj properties
    required := rel_imp hrequired fun _ _ _ => texts_eq_ok.1
    inputProperties := rel_imp hinputProperties fun properties j hj => hgroup _ j hj properties
    requiredInputs := rel_imp hrequiredInputs fun _ _ _ => texts_eq_ok.1
    extra := hextra }

/-- The resources that are accepted are those of the document. -/
theorem holdAll_of_reads {j : Json} {resources : List (Text × Resource)} (hkeyed : j.Keyed)
    (h : Reads (named resource) resources j) : Resource.HoldAll resources j := by
  obtain ⟨entries, rfl, hnamed⟩ := (named_eq_ok hkeyed).1 h
  refine ⟨entries, rfl, forall₂_imp_mem hnamed fun resource entry hentry ⟨hname, hreads⟩ => ?_⟩
  have hvalue := hkeyed.2.value hentry
  cases hobject : entry.2 with
  | object members =>
    rw [hobject] at hvalue hreads
    exact ⟨hname, members, rfl, holds_of_resource hvalue hreads⟩
  | _ =>
    -- A resource that is no object is refused.
    rw [hobject] at hreads
    cases hreads

/-- A schema that is accepted holds what its document says. -/
theorem holds_of_ofValue {j : Json} {s : Schema} (hkeyed : j.Keyed)
    (h : ofValue j.toValue = .ok s) : ∃ members, j = .object members ∧ s.Holds members := by
  obtain ⟨members, rfl, ⟨resources, hresources, hreads⟩, -, hextra⟩ := ofValue_eq_ok.1 h
  refine ⟨members, rfl, ⟨resources, hresources, rel_imp hreads fun resources j hj => ?_⟩, hextra⟩
  exact holdAll_of_reads (hkeyed.2.value (Json.mem_of_given hj))

/-! ## What a document says is accepted -/

/-- The keys of well-formed members are well-formed. -/
theorem keysWellFormed (h : WellFormedMembers members) : KeysWellFormed members :=
  fun _ hmember => (h.member hmember).1

/-- The properties of a well-formed document are accepted. -/
theorem reads_of_holdGroup {j : Json} {properties : List (Text × Property)} (hkeyed : j.Keyed)
    (hwellFormed : j.IsWellFormed) (h : Property.HoldGroup properties j) :
    Reads (named property) properties j := by
  obtain ⟨members, rfl, hnamed⟩ := h
  -- A property does not hold its keys, so that they are well-formed comes from the document.
  refine (named_eq_ok hkeyed).2 ⟨members, rfl, forall₂_imp_mem hnamed fun p member hmember h => ?_⟩
  refine ⟨h.1, property_eq_ok.2 ⟨h.2, fun inner hinner => keysWellFormed ?_⟩⟩
  have hvalue := (WellFormedMembers.member hwellFormed hmember).2
  rwa [hinner] at hvalue

/-- The resource of a well-formed document is accepted. -/
theorem resource_of_holds {r : Resource} (hkeyed : (Json.object members).Keyed)
    (hwellFormed : WellFormedMembers members) (h : r.Holds members) :
    resource (Json.object members).toValue = .ok r := by
  have hgroup : ∀ key, ∀ j ∈ given key members, ∀ properties,
      Property.HoldGroup properties j → Reads (named property) properties j :=
    fun key j hj properties => reads_of_holdGroup (hkeyed.2.value (Json.mem_of_given hj))
      (hwellFormed.member (Json.mem_of_given hj)).2
  exact resource_eq_ok.2
    ⟨rel_imp h.properties fun properties j hj => hgroup _ j hj properties,
      rel_imp h.required fun _ _ _ => texts_eq_ok.2,
      rel_imp h.inputProperties fun properties j hj => hgroup _ j hj properties,
      rel_imp h.requiredInputs fun _ _ _ => texts_eq_ok.2, keysWellFormed hwellFormed, h.extra⟩

/-- The resources of a well-formed document are accepted. -/
theorem reads_of_holdAll {j : Json} {resources : List (Text × Resource)} (hkeyed : j.Keyed)
    (hwellFormed : j.IsWellFormed) (h : Resource.HoldAll resources j) :
    Reads (named resource) resources j := by
  obtain ⟨entries, rfl, hnamed⟩ := h
  refine (named_eq_ok hkeyed).2 ⟨entries, rfl, forall₂_imp_mem hnamed
    fun resource entry hentry ⟨hname, members, hobject, hholds⟩ => ⟨hname, ?_⟩⟩
  have hkeyed' := hkeyed.2.value hentry
  have hwellFormed' := (WellFormedMembers.member hwellFormed hentry).2
  rw [hobject] at hkeyed' hwellFormed' ⊢
  exact resource_of_holds hkeyed' hwellFormed' hholds

/-- What a well-formed document says is accepted as a schema. -/
theorem ofValue_of_holds {s : Schema} (hkeyed : (Json.object members).Keyed)
    (hwellFormed : WellFormedMembers members) (h : s.Holds members) :
    ofValue (Json.object members).toValue = .ok s := by
  obtain ⟨⟨resources, hresources, hall⟩, hextra⟩ := h
  refine ofValue_eq_ok.2 ⟨members, rfl, ⟨resources, hresources,
    rel_imp hall fun resources j hj => ?_⟩, keysWellFormed hwellFormed, hextra⟩
  have hmember := Json.mem_of_given hj
  exact reads_of_holdAll (hkeyed.2.value hmember) (hwellFormed.member hmember).2

/-! ## Which documents say something -/

/-- Things belong to the members of an object if there is one for each. -/
theorem exists_named_iff {holds : α → Json → Prop} :
    (∃ entries, Named holds entries members) ↔ ∀ member ∈ members, ∃ a, holds a member.2 := by
  unfold Named
  rw [exists_forall₂_iff]
  refine forall₂_congr fun member _ => ⟨?_, ?_⟩
  · rintro ⟨⟨name, a⟩, -, ha⟩
    exact ⟨a, ha⟩
  · rintro ⟨a, ha⟩
    exact ⟨(member.1, a), rfl, ha⟩

/-- Every document says something about a property. -/
theorem exists_property_holds (j : Json) : ∃ p : Property, p.Holds j := by
  cases j with
  | object members => exact ⟨⟨_, _⟩, rfl, rfl⟩
  | _ => exact ⟨{}, rfl⟩

/-- A document gives a group of properties if it is an object. -/
theorem exists_holdGroup_iff {j : Json} :
    (∃ properties, Property.HoldGroup properties j) ↔ j.IsObject := by
  constructor
  · rintro ⟨_, members, rfl, -⟩
    exact ⟨members, rfl⟩
  · rintro ⟨members, rfl⟩
    obtain ⟨properties, hnamed⟩ :=
      exists_named_iff.2 fun member (_ : member ∈ members) => exists_property_holds member.2
    exact ⟨properties, members, rfl, hnamed⟩

/-- Members describe a resource if they are those of one. -/
theorem exists_resource_holds_iff :
    (∃ r : Resource, r.Holds members) ↔ Json.IsResource members := by
  constructor
  · rintro ⟨r, hproperties, hrequired, hinputProperties, hrequiredInputs, -⟩
    exact {
      properties := fun j hj => exists_holdGroup_iff.1 (exists_rel_iff.1 ⟨_, hproperties⟩ j hj)
      required := exists_rel_iff.1 ⟨_, hrequired⟩
      inputProperties := fun j hj =>
        exists_holdGroup_iff.1 (exists_rel_iff.1 ⟨_, hinputProperties⟩ j hj)
      requiredInputs := exists_rel_iff.1 ⟨_, hrequiredInputs⟩ }
  · intro h
    obtain ⟨properties, hproperties⟩ :=
      exists_rel_iff.2 fun j hj => exists_holdGroup_iff.2 (h.properties j hj)
    obtain ⟨required, hrequired⟩ := exists_rel_iff.2 h.required
    obtain ⟨inputProperties, hinputProperties⟩ :=
      exists_rel_iff.2 fun j hj => exists_holdGroup_iff.2 (h.inputProperties j hj)
    obtain ⟨requiredInputs, hrequiredInputs⟩ := exists_rel_iff.2 h.requiredInputs
    exact ⟨⟨properties, required, inputProperties, requiredInputs, _⟩,
      hproperties, hrequired, hinputProperties, hrequiredInputs, rfl⟩

/-- A document describes resources if it is an object of them. -/
theorem exists_holdAll_iff {j : Json} :
    (∃ resources, Resource.HoldAll resources j) ↔ j.IsResources := by
  constructor
  · rintro ⟨_, entries, rfl, hnamed⟩
    refine ⟨entries, rfl, fun entry hentry => ?_⟩
    obtain ⟨r, members, hobject, hholds⟩ := exists_named_iff.1 ⟨_, hnamed⟩ entry hentry
    exact ⟨members, hobject, exists_resource_holds_iff.1 ⟨r, hholds⟩⟩
  · rintro ⟨entries, rfl, hall⟩
    suffices h : ∃ resources : List (Text × Resource),
        Named (fun r j => ∃ members, j = .object members ∧ r.Holds members) resources entries by
      obtain ⟨resources, hnamed⟩ := h
      exact ⟨resources, entries, rfl, hnamed⟩
    refine exists_named_iff.2 fun entry hentry => ?_
    obtain ⟨members, hobject, hresource⟩ := hall entry hentry
    obtain ⟨r, hholds⟩ := exists_resource_holds_iff.2 hresource
    exact ⟨r, members, hobject, hholds⟩

/-- Members describe a schema if what is under the key of the resources describes them. -/
theorem exists_holds_iff :
    (∃ s : Schema, s.Holds members) ↔ ∀ j ∈ given "resources" members, j.IsResources := by
  constructor
  · rintro ⟨_, ⟨_, -, hall⟩, -⟩
    exact fun j hj => exists_holdAll_iff.1 (exists_rel_iff.1 ⟨_, hall⟩ j hj)
  · intro h
    obtain ⟨resources, hall⟩ := exists_rel_iff.2 fun j hj => exists_holdAll_iff.2 (h j hj)
    exact ⟨⟨resources.getD [], _⟩, ⟨resources, rfl, hall⟩, rfl⟩

/-! ## The documents that are accepted -/

/-- A document without lone surrogates is accepted if it has the shape of a schema, and only then;
and what is made of it is the schema that holds what the document says. -/
theorem ofValue_accepts {j : Json} (hkeyed : j.Keyed) (hwellFormed : j.IsWellFormed) :
    ((∃ s, ofValue j.toValue = .ok s) ↔ j.IsSchema) ∧
      ∀ s, ofValue j.toValue = .ok s ↔ ∃ members, j = .object members ∧ s.Holds members := by
  have hholds : ∀ s, ofValue j.toValue = .ok s ↔
      ∃ members, j = .object members ∧ s.Holds members := by
    refine fun s => ⟨holds_of_ofValue hkeyed, ?_⟩
    rintro ⟨members, rfl, hholds⟩
    exact ofValue_of_holds hkeyed hwellFormed hholds
  -- That there is a schema is then that there is one that holds what the document says.
  refine ⟨⟨?_, ?_⟩, hholds⟩
  · rintro ⟨s, hs⟩
    obtain ⟨members, rfl, h⟩ := (hholds s).1 hs
    exact ⟨members, rfl, exists_holds_iff.1 ⟨s, h⟩⟩
  · rintro ⟨members, rfl, hresources⟩
    obtain ⟨s, h⟩ := exists_holds_iff.2 hresources
    exact ⟨s, (hholds s).2 ⟨members, rfl, h⟩⟩

/-- A document with an extra entry at each level, a property that is no object, a group that is null
and a list in its second spelling is accepted; with a text for that list it is not. -/
theorem ofValue_accepts_bucket :
    let document := fun inputs : Json => Json.object [("name", .text "store"), ("resources", .object
      [("store:index:Bucket", .object [("description", .text "A bucket."),
        ("properties", .object [("id", .object [("type", .text "string"), ("secret", .bool true)]),
          ("tags", .bool false)]),
        ("required", .array [.text "id"]), ("inputProperties", .null),
        ("required_inputs", inputs)])])]
    (document (.array [.text "name"])).IsSchema ∧ ¬ (document (.text "name")).IsSchema := by
  intro document
  have hlist := ofValue_accepts (j := document (.array [.text "name"])) (by decide) (by decide)
  have htext := ofValue_accepts (j := document (.text "name")) (by decide) (by decide)
  refine ⟨hlist.1.1 ⟨_, rfl⟩, htext.1.not.1 ?_⟩
  rintro ⟨s, hs⟩
  cases hs

end Schema

end ProviderKit
