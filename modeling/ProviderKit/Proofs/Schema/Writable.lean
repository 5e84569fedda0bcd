import ProviderKit.Proofs.Build.Foreseen
import ProviderKit.Proofs.Schema.Shape

/-!
# Which schemas can be written

What a schema prints are its tokens and the names of its properties, and these are the keys of
mappings in the document. Where a level of a document has a shape, its keys are checked: none that
holds a lone surrogate passes (`keysChecked_of_withExtra`). The mappings of resources and of
properties may have any keys, and of these nothing is checked but that they are texts. So a lone
surrogate in the document can reach the text that is printed, and the only way is by such a key
(`hasKey_of_hasName`). `load_writable` states what follows for the writing.
-/

namespace ProviderKit

namespace Schema

variable {α : Type} {entries : List (Value × Value)} {schema : Schema} {key name : Text}

/-! ## Names and keys -/

/-- The names under which a group of properties can stand in a resource. -/
def groupKeys : List Text := ["properties", "inputProperties", "input_properties"]

/-- The value is in the document as a key of the mapping of resources, or as a key of a group of
properties in one of them. -/
def HasKey (entries : List (Value × Value)) (key : Value) : Prop :=
  ∃ resources, Value.lookup "resources" entries = some (.mapping resources) ∧
    ∃ entry ∈ resources, entry.1 = key ∨
      ∃ members, entry.2 = .mapping members ∧ ∃ group ∈ groupKeys, ∃ properties,
        Value.lookup group members = some (.mapping properties) ∧
          ∃ property ∈ properties, property.1 = key

/-- The name is a token of the schema, or the name of a property in one of the two groups of a
resource. -/
def HasName (schema : Schema) (name : Text) : Prop :=
  ∃ entry ∈ schema.resources, entry.1 = name ∨
    ∃ property ∈ entry.2.inputProperties.getD [] ++ entry.2.properties.getD [], property.1 = name

/-- A name with a lone surrogate comes from a text: what is decoded from bytes has none. -/
theorem text_of_asText {value : Value} (h : value.asText = .ok name)
    (hsurrogate : name.isWellFormed = false) : value = .text name := by
  cases value with
  | text t =>
    cases h
    rfl
  | bytes b =>
    rw [Value.asText] at h
    rcases hdecode : Utf8.decode b with fault | t
    all_goals
      rw [hdecode] at h
      cases h
    have hencode : Utf8.encode? name = some b := Utf8.encode_of_decode hdecode
    rw [Utf8.encode?_eq_none.2 hsurrogate] at hencode
    cases hencode
  | _ => cases h

/-! ## Checks that pass -/

/-- A check of one value passes as its rule does. -/
theorem ofRule_eq_ok {outcome : Except ShapeRule α} {a : α} :
    Checked.ofRule outcome = .ok a ↔ outcome = .ok a := by
  cases outcome <;> simp [Checked.ofRule, Checked.broken]

/-- What was inserted is the new item, or was there before. -/
theorem mem_insertNamed {item : α} {done : List (Text × α)} {entry : Text × α}
    (h : entry ∈ insertNamed name item done) : entry = (name, item) ∨ entry ∈ done := by
  induction done with
  | nil => exact .inl (List.mem_singleton.1 h)
  | cons head done ih =>
    rw [insertNamed] at h
    split at h
    next heq =>
      rcases List.mem_cons.1 h with rfl | hrest
      · exact .inl (by rw [heq])
      · exact .inr (List.mem_cons_of_mem _ hrest)
    next =>
      rcases List.mem_cons.1 h with rfl | hrest
      · exact .inr List.mem_cons_self
      · exact (ih hrest).imp_right (List.mem_cons_of_mem _)

/-- What was collected is one of the entries. -/
theorem mem_collect {given : List (Text × α)} {entry : Text × α} (h : entry ∈ collect given) :
    entry ∈ given := by
  -- By induction on what is left to collect, whatever has been collected before.
  have hfold : ∀ done, entry ∈ given.foldl (fun done e => insertNamed e.1 e.2 done) done →
      entry ∈ done ∨ entry ∈ given := by
    clear h
    induction given with
    | nil => exact fun done hdone => .inl hdone
    | cons head given ih =>
      intro done hdone
      rcases ih _ hdone with hinserted | hrest
      · rcases mem_insertNamed hinserted with rfl | hbefore
        · exact .inr List.mem_cons_self
        · exact .inl hbefore
      · exact .inr (List.mem_cons_of_mem _ hrest)
  exact (hfold [] h).resolve_left List.not_mem_nil

/-- The things under names come from a mapping: each of them from a value there, under a key that is
its name. -/
theorem named_ok {item : Value → Checked α} {value : Value} {things : List (Text × α)}
    (h : named item value = .ok things) : ∃ members, value = .mapping members ∧
      ∀ thing ∈ things, ∃ member ∈ members, member.1.asText = .ok thing.1 ∧
        item member.2 = .ok thing.2 := by
  cases value with
  | mapping members =>
    refine ⟨members, rfl, fun thing hthing => ?_⟩
    obtain ⟨results, hall, rfl⟩ := Checked.map_eq_ok.1 h
    have hresult := mem_collect hthing
    obtain ⟨i, hi, hget⟩ := List.mem_iff_getElem.1 hresult
    have hchecks := Checked.all_eq_ok.1 hall
    have hlength : i < members.length := by
      have hsame := hchecks.length_eq
      rw [List.length_map] at hsame
      omega
    have hcheck := hchecks.get (by simpa using hlength) hi
    simp only [List.get_eq_getElem, List.getElem_map, hget, Checked.under_eq_ok] at hcheck
    obtain ⟨hname, hitem⟩ := Checked.both_eq_ok.1 hcheck
    exact ⟨members[i], List.getElem_mem hlength,
      ofRule_eq_ok.1 (Checked.under_eq_ok.1 hname), hitem⟩
  | _ => cases h

/-- The part of a level comes from the value under one of its keys, if it is there. -/
theorem part_ok {keys : List Text} {item : Value → Checked α} {found : Option α}
    (h : (part keys entries item).1 = .ok found) {a : α} (ha : found = some a) :
    ∃ key ∈ keys, ∃ value, Value.lookup key entries = some value ∧ item value = .ok a := by
  subst ha
  unfold part at h
  split at h
  next => cases h
  next key hkey =>
    have hsome : (Value.lookup key entries).isSome = true := by simpa using List.find?_some hkey
    obtain ⟨value, hvalue⟩ := Option.isSome_iff_exists.1 hsome
    rw [hvalue] at h
    refine ⟨key, List.mem_of_find?_eq_some hkey, value, hvalue, ?_⟩
    have hitem : optional item value = .ok (some a) := Checked.under_eq_ok.1 h
    unfold optional at hitem
    split at hitem
    next => cases hitem
    next =>
      obtain ⟨b, hb, heq⟩ := Checked.map_eq_ok.1 hitem
      cases heq
      exact hb

/-- Every key of a level is a text without lone surrogates. -/
def KeysChecked (entries : List (Value × Value)) : Prop :=
  ∀ entry ∈ entries, ∃ key : Text, entry.1 = .text key ∧ key.isWellFormed = true

/-- If the extra entries of a level pass, its keys are checked, those of its parts among them. -/
theorem keysChecked_of_extraEntries {read : List Text} {extra : List (Text × Value)}
    (h : extraEntries read entries = .ok (.ok extra)) : KeysChecked entries := by
  induction entries generalizing extra with
  | nil => exact fun _ hentry => absurd hentry List.not_mem_nil
  | cons entry entries ih =>
    obtain ⟨key, value⟩ := entry
    cases key with
    | text key =>
      rw [extraEntries] at h
      by_cases hkey : key.isWellFormed = true
      · simp only [hkey, Bool.not_true, Bool.false_eq_true, if_false] at h
        obtain ⟨others, hothers, h⟩ := except_bind_eq_ok.1 h
        have hrest : ∃ left, others = .ok left := by
          split at h
          · exact ⟨extra, Except.ok.inj h⟩
          · obtain ⟨left, hleft, -⟩ := Checked.map_eq_ok.1 (Except.ok.inj h)
            exact ⟨left, hleft⟩
        obtain ⟨left, rfl⟩ := hrest
        exact List.forall_mem_cons.2 ⟨⟨key, rfl, hkey⟩, ih hothers⟩
      · rw [if_pos (by simp [hkey])] at h
        cases h
    | _ =>
      -- A key that is no text is a violation, whatever else is found.
      obtain ⟨others, hothers, h⟩ := except_bind_eq_ok.1 h
      obtain ⟨pair, hpair, -⟩ := Checked.map_eq_ok.1 (Except.ok.inj h)
      have hviolation := (Checked.both_eq_ok.1 hpair).1
      cases hviolation

/-- A level that passes has its own part, and its keys are checked. -/
theorem withExtra_ok {own : Checked α} {read : List Text} {a : α} {extra : List (Text × Value)}
    (h : withExtra own read entries = .ok (a, extra)) : own = .ok a ∧ KeysChecked entries := by
  unfold withExtra at h
  split at h
  next => cases h
  next found hfound =>
    obtain ⟨hown, hextra⟩ := Checked.both_eq_ok.1 h
    exact ⟨hown, keysChecked_of_extraEntries (hextra ▸ hfound)⟩

/-! ## Where the names of a schema come from -/

/-- A group of properties comes from the value under one of its keys, each name from a key there. -/
theorem group_ok {keys : List Text} {members : List (Value × Value)}
    {found : Option (List (Text × Property))}
    (h : (part keys members (named property)).1 = .ok found) :
    ∀ thing ∈ found.getD [], ∃ group ∈ keys, ∃ properties,
      Value.lookup group members = some (.mapping properties) ∧
      ∃ entry ∈ properties, entry.1.asText = .ok thing.1 := by
  intro thing hthing
  cases found with
  | none => cases hthing
  | some things =>
    obtain ⟨group, hgroup, value, hlookup, hnamed⟩ := part_ok h rfl
    obtain ⟨properties, rfl, hthings⟩ := named_ok hnamed
    obtain ⟨entry, hentry, hname, -⟩ := hthings thing hthing
    exact ⟨group, hgroup, properties, hlookup, entry, hentry, hname⟩

/-- The names of the properties of a resource come from the keys of its groups; the keys of the
resource itself are checked. -/
theorem resource_ok {value : Value} {r : Resource} (h : resource value = .ok r) :
    ∃ members, value = .mapping members ∧ KeysChecked members ∧
      ∀ thing ∈ r.inputProperties.getD [] ++ r.properties.getD [], ∃ group ∈ groupKeys,
        ∃ properties, Value.lookup group members = some (.mapping properties) ∧
          ∃ entry ∈ properties, entry.1.asText = .ok thing.1 := by
  cases value with
  | mapping members =>
    refine ⟨members, rfl, ?_⟩
    obtain ⟨⟨⟨properties, required, inputs, requiredInputs⟩, extra⟩, hlevel, rfl⟩ :=
      Checked.map_eq_ok.1 h
    obtain ⟨hown, hkeys⟩ := withExtra_ok hlevel
    obtain ⟨hproperties, hown⟩ := Checked.both_eq_ok.1 hown
    obtain ⟨-, hown⟩ := Checked.both_eq_ok.1 hown
    obtain ⟨hinputs, -⟩ := Checked.both_eq_ok.1 hown
    refine ⟨hkeys, fun thing hthing => ?_⟩
    rcases List.mem_append.1 hthing with hinput | houtput
    · obtain ⟨group, hgroup, hrest⟩ := group_ok hinputs thing hinput
      exact ⟨group, List.mem_cons_of_mem _ hgroup, hrest⟩
    · obtain ⟨group, hgroup, hrest⟩ := group_ok hproperties thing houtput
      exact ⟨group, List.mem_cons.2 (.inl (List.mem_singleton.1 hgroup)), hrest⟩
  | _ => cases h

/-- The keys of a document are checked, and each resource comes from a value under its token. -/
theorem ofEntries_ok (h : ofEntries entries = .ok schema) : KeysChecked entries ∧
    ∀ thing ∈ schema.resources, ∃ resources,
      Value.lookup "resources" entries = some (.mapping resources) ∧
      ∃ entry ∈ resources, entry.1.asText = .ok thing.1 ∧ resource entry.2 = .ok thing.2 := by
  obtain ⟨⟨found, extra⟩, hlevel, rfl⟩ := Checked.map_eq_ok.1 h
  obtain ⟨hown, hkeys⟩ := withExtra_ok hlevel
  refine ⟨hkeys, fun thing hthing => ?_⟩
  cases found with
  | none => cases hthing
  | some things =>
    obtain ⟨key, hkey, value, hlookup, hnamed⟩ := part_ok hown rfl
    obtain rfl := List.mem_singleton.1 hkey
    obtain ⟨resources, rfl, hthings⟩ := named_ok hnamed
    exact ⟨resources, hlookup, hthings thing hthing⟩

/-- A name of a schema that holds a lone surrogate is a text among the keys that are not checked. -/
theorem hasKey_of_hasName (h : ofEntries entries = .ok schema) (hname : schema.HasName name)
    (hsurrogate : name.isWellFormed = false) : HasKey entries (.text name) := by
  obtain ⟨thing, hthing, hname⟩ := hname
  obtain ⟨resources, hlookup, entry, hentry, htoken, hresource⟩ := (ofEntries_ok h).2 thing hthing
  refine ⟨resources, hlookup, entry, hentry, ?_⟩
  rcases hname with rfl | ⟨property, hproperty, rfl⟩
  · exact .inl (text_of_asText htoken hsurrogate)
  · obtain ⟨members, hmembers, -, hgroups⟩ := resource_ok hresource
    obtain ⟨group, hgroup, properties, hlookup, key, hkey, hname⟩ := hgroups property hproperty
    exact .inr ⟨members, hmembers, group, hgroup, properties, hlookup, key, hkey,
      text_of_asText hname hsurrogate⟩

/-! ## What is printed -/

/-- What is shown with a lone surrogate makes a name of the schema have one. -/
theorem hasName_of_shows (h : Declaration.Shows schema.resources name)
    (hsurrogate : name.isWellFormed = false) :
    ∃ whole, schema.HasName whole ∧ whole.isWellFormed = false := by
  obtain ⟨entry, hentry, ⟨first, second, rest, hsplit, -⟩ | ⟨property, hproperty, rfl⟩⟩ := h
  · refine ⟨entry.1, ⟨entry, hentry, .inl rfl⟩, ?_⟩
    have hmem : name ∈ Text.split (.char ':') entry.1 := by simp [hsplit]
    have hsubset : name ⊆ entry.1 := Text.subset_of_mem_split hmem
    rw [Text.isWellFormed, List.all_eq_false] at hsurrogate ⊢
    obtain ⟨c, hc, hlone⟩ := hsurrogate
    exact ⟨c, hsubset hc, hlone⟩
  · exact ⟨property.1, ⟨entry, hentry, .inr ⟨property, hproperty, rfl⟩⟩, hsurrogate⟩

/-- Printing fails at a token that names no type, which is the problem. -/
theorem source_badToken {e : Failure} (h : schema.source = .error e) :
    ∃ token resource, (token, resource) ∈ schema.resources ∧ (∀ type, ¬ NamesType token type) ∧
      e = .problem (.badToken token) := by
  have hbad : ¬ ∀ entry ∈ schema.resources, ∃ type, NamesType entry.1 type := by
    intro hall
    obtain ⟨text, count, hdone⟩ := source_done hall
    rw [hdone] at h
    cases h
  obtain ⟨before, token, resource, after, hresources, -, hnone, herror⟩ :=
    Declaration.ofResources_error hbad
  refine ⟨token, resource, by simp [hresources], hnone, ?_⟩
  unfold source Schema.declarations at h
  rw [herror] at h
  exact (Except.error.inj h).symm

end Schema

/-- Writing a text as a whole does not fail on the encoding of a text that can be encoded. -/
theorem Disk.writeWhole_encodable [Interpreter] {text : Text} {bytes : Bytes}
    (h : Utf8.encode? text = some bytes) (disk : Disk) (draws : List Text) (target : Path) :
    (disk.writeWhole draws target text).1 ≠ .error .unencodable := by
  unfold Disk.writeWhole Disk.writeOn
  split
  · simp
  next made hmake =>
    split
    · simp
    next temporary htemporary =>
      rw [h]
      rcases made.locate false temporary with fault | place
      · show (.error (.disk fault) : Except Failure Unit) ≠ .error .unencodable
        simp
      · show (Disk.Device.ample.fill (fun mode bytes => made.put place (.file mode (.bytes bytes)))
          temporary target bytes).1 ≠ .error .unencodable
        rw [Disk.Device.ample_serves.fill_eq, Disk.Device.moveIntoPlace]
        split
        · simp
        · simp
        · simp

namespace Schema

/-- A schema that was loaded is what its document says. -/
theorem load_ok [Interpreter] {disk : Disk} {path : Path} {schema : Schema}
    (h : load disk path = .ok schema) :
    ∃ content entries, disk.readText path = .ok content ∧
      readEntries (.ofPath path) content = .ok entries ∧ ofEntries entries = .ok schema := by
  have hfile := isFile?_of_load h
  unfold load at h
  rw [hfile] at h
  simp only [orFail, bind, Except.bind, Bool.not_true, Bool.false_eq_true, if_false] at h
  rcases htext : disk.readText path with fault | content
  all_goals rw [htext] at h
  · cases h
  unfold ofContent at h
  obtain ⟨entries, hentries, h⟩ := except_bind_eq_ok.1 h
  refine ⟨content, entries, rfl, hentries, ?_⟩
  split at h
  next found hfound =>
    cases h
    exact hfound
  next => cases h

/-- In a schema that was loaded a name with a lone surrogate is a key of the document, as a token or
in a group of properties, and all other keys of the document and its resources are free of them.
Printing the schema fails at a malformed token with a problem of the schema. What is printed cannot
be encoded if and only if it shows such a name; if the document has no such key, it is encoded, and
writing it does not fail on that. -/
theorem load_writable [Interpreter] {disk : Disk} {path : Path} {schema : Schema}
    (h : load disk path = .ok schema) :
    ∃ content entries, disk.readText path = .ok content ∧
      readEntries (.ofPath path) content = .ok entries ∧
      KeysChecked entries ∧
      (∀ name, schema.HasName name → name.isWellFormed = false → HasKey entries (.text name)) ∧
      (∀ e, schema.source = .error e → ∃ token resource, (token, resource) ∈ schema.resources ∧
        (∀ type, ¬ NamesType token type) ∧ e = .problem (.badToken token) ∧
        (Problem.badToken token).report.category = .schemaParse) ∧
      ∀ text count, schema.source = .ok (text, count) →
        (Utf8.encode? text = none ↔
          ∃ name, Declaration.Shows schema.resources name ∧ name.isWellFormed = false) ∧
        ((∀ key, HasKey entries (.text key) → key.isWellFormed = true) →
          ∃ bytes, Utf8.encode? text = some bytes ∧ ∀ (other : Disk) draws target,
            (other.writeWhole draws target text).1 ≠ .error .unencodable) := by
  obtain ⟨content, entries, htext, hentries, hschema⟩ := load_ok h
  refine ⟨content, entries, htext, hentries, (ofEntries_ok hschema).1, ?_, ?_, ?_⟩
  · exact fun name hname hsurrogate => hasKey_of_hasName hschema hname hsurrogate
  · intro e he
    obtain ⟨token, resource, hmem, hnone, rfl⟩ := source_badToken he
    exact ⟨token, resource, hmem, hnone, rfl, rfl⟩
  · intro text count hsource
    refine ⟨encode?_source hsource, fun hkeys => ?_⟩
    rcases hencode : Utf8.encode? text with _ | bytes
    · -- A name that cannot be encoded would be a key of the document.
      obtain ⟨shown, hshows, hsurrogate⟩ := (encode?_source hsource).1 hencode
      obtain ⟨name, hname, hlone⟩ := hasName_of_shows hshows hsurrogate
      have hwell := hkeys name (hasKey_of_hasName hschema hname hlone)
      rw [hlone] at hwell
      cases hwell
    · exact ⟨bytes, rfl, Disk.writeWhole_encodable hencode⟩

/-! ## Schemas with and without lone surrogates -/

/-- Whether a key is other than a text with a lone surrogate. -/
def isCleanKey : Value → Bool
  | .text key => key.isWellFormed
  | _ => true

/-- Whether no key of a mapping is a text with a lone surrogate. -/
def hasCleanKeys : Value → Bool
  | .mapping entries => entries.all fun entry => isCleanKey entry.1
  | _ => true

/-- Whether the keys of a resource's groups are clean. -/
def isCleanResource : Value → Bool
  | .mapping members => groupKeys.all fun group => (Value.lookup group members).all hasCleanKeys
  | _ => true

/-- Whether the keys of a document that are not checked are clean all the same. -/
def isClean (entries : List (Value × Value)) : Bool :=
  match Value.lookup "resources" entries with
  | some (.mapping resources) =>
    resources.all fun entry => isCleanKey entry.1 && isCleanResource entry.2
  | _ => true

/-- The keys of a clean document hold no lone surrogates. -/
theorem isWellFormed_of_isClean (h : isClean entries = true) (hkey : HasKey entries (.text key)) :
    key.isWellFormed = true := by
  obtain ⟨resources, hlookup, entry, hentry, hkey⟩ := hkey
  rw [isClean, hlookup] at h
  have hboth := List.all_eq_true.1 h entry hentry
  rw [Bool.and_eq_true] at hboth
  rcases hkey with heq | ⟨members, hmembers, group, hgroup, properties, hproperties, p, hp, heq⟩
  · have hclean := hboth.1
    rwa [heq] at hclean
  · have hresource := hboth.2
    rw [hmembers, isCleanResource, List.all_eq_true] at hresource
    have hgroup := hresource group hgroup
    rw [hproperties, Option.all_some, hasCleanKeys, List.all_eq_true] at hgroup
    have hclean := hgroup p hp
    rwa [heq] at hclean

/-- A YAML schema with a property whose name is given in binary. -/
def binaryNamed : Disk :=
  schemaDisk "schema.yaml"
    "resources: \x7b\"a:b:C\": \x7bproperties: \x7b!!binary aWQ=: \x7b\x7d\x7d\x7d\x7d\n"

/-- The schema with the binary name is loaded, printed and encoded. -/
theorem load_writable_binaryNamed : ∃ schema text count bytes,
    load binaryNamed ⟨.single, ["p", "schema.yaml"]⟩ = .ok schema ∧
    schema.source = .ok (text, count) ∧ Utf8.encode? text = some bytes := by
  have hchecks : ((load binaryNamed ⟨.single, ["p", "schema.yaml"]⟩).toOption.any
        (fun schema => schema.source.isOk) &&
      (binaryNamed.readText ⟨.single, ["p", "schema.yaml"]⟩).toOption.any (fun content =>
        (readEntries .yaml content).toOption.any isClean)) = true := by
    decide +kernel
  rw [Bool.and_eq_true] at hchecks
  rcases hload : load binaryNamed ⟨.single, ["p", "schema.yaml"]⟩ with e | schema
  · rw [hload] at hchecks
    exact absurd hchecks.1 Bool.false_ne_true
  rw [hload] at hchecks
  rcases hsource : schema.source with e | ⟨text, count⟩
  · have hok := hchecks.1
    rw [Except.toOption, Option.any_some, hsource] at hok
    exact absurd hok Bool.false_ne_true
  obtain ⟨content, entries, htext, hentries, -, -, -, hprinted⟩ := load_writable hload
  have hclean := hchecks.2
  rw [htext] at hclean
  change (readEntries .yaml content).toOption.any isClean = true at hclean
  rw [show readEntries .yaml content = .ok entries from hentries] at hclean
  obtain ⟨bytes, hencode, -⟩ := (hprinted text count hsource).2 fun key =>
    isWellFormed_of_isClean hclean
  exact ⟨schema, text, count, bytes, rfl, hsource, hencode⟩

/-- A JSON schema with a property whose name is a lone surrogate. -/
def oddlyNamed : Disk :=
  schemaDisk usualFilename
    "\x7b\"resources\":\x7b\"a:b:C\":\x7b\"properties\":\x7b\"\\ud800\":\x7b\x7d\x7d\x7d\x7d\x7d"

/-- The schema with the odd name is loaded and printed, but what is printed cannot be written. -/
theorem load_not_writable : ∃ schema name text count,
    load oddlyNamed ⟨.single, ["p", usualFilename]⟩ = .ok schema ∧
    schema.HasName name ∧ name.isWellFormed = false ∧
    schema.source = .ok (text, count) ∧ Utf8.encode? text = none ∧
    (oddlyNamed.writeWhole ["a"] (Path.child ⟨.single, ["p"]⟩ declarationFilename) text).1 =
      .error .unencodable := by
  have hchecks : ((load oddlyNamed ⟨.single, ["p", usualFilename]⟩).toOption.any (fun schema =>
        schema.resources.any (fun entry => (entry.2.properties.getD []).any fun property =>
          !property.1.isWellFormed) &&
        schema.source.toOption.any fun printed => Utf8.encode? printed.1 == none) &&
      takesSchema oddlyNamed) = true := by
    decide +kernel
  rw [Bool.and_eq_true] at hchecks
  obtain ⟨hloaded, htakes⟩ := hchecks
  obtain ⟨-, htakes, -⟩ := takesSchema_spec htakes
  have hgivable : Disk.IsGivable (Path.child ⟨.single, ["p"]⟩ declarationFilename) := by
    decide +kernel
  rcases hload : load oddlyNamed ⟨.single, ["p", usualFilename]⟩ with e | schema
  all_goals rw [hload] at hloaded
  · exact absurd hloaded Bool.false_ne_true
  have hchild : load oddlyNamed (Path.child ⟨.single, ["p"]⟩ usualFilename) = .ok schema := hload
  obtain ⟨place, henters⟩ := enters_of_load hchild
  simp only [Except.toOption, Option.any_some, Bool.and_eq_true, List.any_eq_true,
    Bool.not_eq_true'] at hloaded
  obtain ⟨⟨entry, hentry, property, hproperty, hsurrogate⟩, hprinted⟩ := hloaded
  rcases hsource : schema.source with e | ⟨text, count⟩
  all_goals rw [hsource] at hprinted
  · exact absurd hprinted Bool.false_ne_true
  have hencode : Utf8.encode? text = none := eq_of_beq hprinted
  refine ⟨schema, property.1, text, count, rfl, ⟨entry, hentry, .inr ⟨property, ?_, rfl⟩⟩,
    hsurrogate, hsource, hencode, htakes.unencodable henters hgivable hencode⟩
  exact List.mem_append_right _ hproperty

end Schema

end ProviderKit
