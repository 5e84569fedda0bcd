import ProviderKit.Schema.Basic
import ProviderKit.Shape.Checked

/-!
# The shape of a schema

Checks a value against the shape of a schema document and builds the document. All violations are
reported together, in the order of the document: within a resource first those of its groups and
lists, then those of its extra keys. One violation comes alone: an extra key that is no well-formed
text hides every other violation of its level.
-/

namespace ProviderKit

namespace Schema

/-- Collects entries under names; a repeated name keeps its first place and its last item. -/
def collect {α : Type} (entries : List (Text × α)) : List (Text × α) :=
  entries.foldl (fun done (name, item) => insertNamed name item done) []

/-- The extra entries of a level: those under keys other than the ones already read. The keys must
be texts, and a text with a lone surrogate hides all else. -/
def extraEntries (read : List Text) :
    List (Value × Value) → Except Violation (Checked (List (Text × Value)))
  | [] => .ok (.ok [])
  | (.text key, value) :: rest =>
    if !key.isWellFormed then .error (.here .wellFormedText)
    else do
      let others ← extraEntries read rest
      if read.contains key then pure others
      else pure ((fun others => (key, value) :: others) <$> others)
  | (key, _) :: rest => do
    let others ← extraEntries read rest
    let broken : Checked Unit := .error [⟨[.ofKey key], .textKey⟩]
    pure ((fun (_, others) => others) <$> Checked.both broken others)

/-- A level of the document: its own part, and its extra entries. -/
def withExtra {α : Type} (own : Checked α) (read : List Text) (entries : List (Value × Value)) :
    Checked (α × List (Text × Value)) :=
  match extraEntries read entries with
  | .error violation => .error [violation]
  | .ok extra => Checked.both own extra

/-- A property schema; anything but a mapping is an untyped property. -/
def property : Value → Checked Property
  | .mapping entries =>
    (fun (type, extra) => ⟨type, extra⟩) <$>
      withExtra (.ok ((Value.lookup "type" entries).getD .null)) ["type"] entries
  | _ => .ok {}

/-- A mapping from texts to things of one shape. -/
def named {α : Type} (item : Value → Checked α) : Value → Checked (List (Text × α))
  | .mapping entries => collect <$> Checked.all (entries.map fun (key, value) =>
      Checked.under (.ofKey key) (Checked.both
        (Checked.under .toKey (.ofRule key.asText)) (item value)))
  | _ => Checked.broken .mapping

/-- Texts, each seen from its index. -/
def textsFrom : Nat → List Value → Checked (List Text)
  | _, [] => .ok []
  | index, item :: items => (fun (t, ts) => t :: ts) <$>
      Checked.both (Checked.under (.index index) (.ofRule item.asText))
        (textsFrom (index + 1) items)

/-- A list of texts; a set is as good as a list. -/
def texts : Value → Checked (List Text)
  | .list items | .set items => textsFrom 0 items
  | _ => Checked.broken .list

/-- Something that may be null. -/
def optional {α : Type} (item : Value → Checked α) : Value → Checked (Option α)
  | .null => .ok none
  | value => some <$> item value

/-- The part of a level under the first of the given keys that is there, and the key read. -/
def part {α : Type} (keys : List Text) (entries : List (Value × Value))
    (item : Value → Checked α) : Checked (Option α) × List Text :=
  match keys.find? fun key => (Value.lookup key entries).isSome with
  | none => (.ok none, [])
  | some key =>
    (Checked.under (.name key) (optional item ((Value.lookup key entries).getD .null)), [key])

/-- A resource. Its input groups may be spelled in two ways; the first spelling wins, and the other
one then is an extra key. -/
def resource : Value → Checked Resource
  | .mapping entries =>
    let properties := part ["properties"] entries (named property)
    let required := part ["required"] entries texts
    let inputProperties := part ["inputProperties", "input_properties"] entries (named property)
    let requiredInputs := part ["requiredInputs", "required_inputs"] entries texts
    let own := Checked.both properties.1 (Checked.both required.1
      (Checked.both inputProperties.1 requiredInputs.1))
    let read := properties.2 ++ required.2 ++ inputProperties.2 ++ requiredInputs.2
    (fun ((properties, required, inputProperties, requiredInputs), extra) =>
      ⟨properties, required, inputProperties, requiredInputs, extra⟩) <$>
        withExtra own read entries
  | _ => Checked.broken (.thing "ResourceDescriptor")

/-- A schema document from its entries. -/
def ofEntries (entries : List (Value × Value)) : Checked Schema :=
  let resources := part ["resources"] entries (named resource)
  (fun (resources, extra) => ⟨resources.getD [], extra⟩) <$>
    withExtra resources.1 resources.2 entries

/-- A schema document. -/
def ofValue : Value → Checked Schema
  | .mapping entries => ofEntries entries
  | _ => Checked.broken .mapping

end Schema

end ProviderKit
