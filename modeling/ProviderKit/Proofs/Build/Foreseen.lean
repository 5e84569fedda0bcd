import ProviderKit.Proofs.Build.Regeneration
import ProviderKit.Proofs.Declaration.Reference
import ProviderKit.Proofs.Disk.Placing
import ProviderKit.Proofs.Json.Encodable

/-!
# How generating fails

Generating is meant to fail with problems of the schema only: it cannot be read, or it is not a
schema. Where the declarations can be written and each path where a schema can be leads to a file or
to nothing, four other failures remain (`Unforeseen`): a schema has too many levels, an integer of a
JSON schema has too many digits, a scalar of a YAML schema is not what its tag says, and a name that
the declarations print holds a lone surrogate. `generate_fails_foreseen` says that each of the four
happens where it is described, and that nothing else does.
-/

namespace ProviderKit

open Disk (Enters)

/-- A problem with the schema of a project. -/
def Problem.IsOfSchema (p : Problem) : Prop :=
  p.report.category = .schemaRead ∨ p.report.category = .schemaParse

/-! ## Reading a schema -/

namespace Schema

/-- How a text that is read in a notation ends the reading, other than by a problem. -/
inductive Surprise [Interpreter] (given : Notation) (content : Text) : Failure → Prop where
  /-- JSON is tried, and has an integer that is too long before anything else is wrong. -/
  | longInteger {failure : Json.Failure} (htried : given ≠ .yaml)
      (hread : Json.read content = .error failure) (hlong : failure.isSyntax = false)
      (hroom : failure.cause ≠ .tooDeep) : Surprise given content .longInteger
  /-- JSON is tried, and has too many levels before anything else is wrong. -/
  | deepJson {failure : Json.Failure} (htried : given ≠ .yaml)
      (hread : Json.read content = .error failure) (hdeep : failure.cause = .tooDeep) :
      Surprise given content .tooDeep
  /-- YAML is tried, at first or since the text is not JSON, and has a scalar of another form than
  its tag asks for. -/
  | scalar {fault : Yaml.Fault}
      (htried : given = .yaml ∨ given = .either ∧
        ∃ failure, Json.read content = .error failure ∧ failure.isSyntax = true)
      (hread : Yaml.read content = .error fault) (hfault : fault ≠ .malformed)
      (hroom : fault ≠ .tooDeep) : Surprise given content (.yaml fault)
  /-- YAML is tried, and has too many levels before anything else is wrong. -/
  | deepYaml
      (htried : given = .yaml ∨ given = .either ∧
        ∃ failure, Json.read content = .error failure ∧ failure.isSyntax = true)
      (hread : Yaml.read content = .error .tooDeep) : Surprise given content .tooDeep

/-- A document that is no mapping is a problem of the schema. -/
theorem requireMapping_error {value : Option Value} {e : Failure}
    (h : requireMapping value = .error e) : ∃ p : Problem, e = .problem p ∧ p.IsOfSchema := by
  unfold requireMapping at h
  split at h <;> cases h <;> exact ⟨_, rfl, .inr rfl⟩

/-- How a fault of a YAML text ends the reading, other than by a problem. -/
def ofYaml (fault : Yaml.Fault) : Failure :=
  if fault = .tooDeep then .tooDeep else .yaml fault

/-- Reading YAML fails with a problem of the schema, or with what YAML itself does not allow. -/
theorem readYaml_error [Interpreter] {jsonReason : Option Text} {content : Text} {e : Failure}
    (h : readYaml jsonReason content = .error e) :
    (∃ p : Problem, e = .problem p ∧ p.IsOfSchema) ∨
      ∃ fault, e = ofYaml fault ∧ Yaml.read content = .error fault ∧ fault ≠ .malformed := by
  unfold readYaml at h
  split at h
  next value hread => exact .inl (requireMapping_error h)
  next hread =>
    cases h
    exact .inl ⟨_, rfl, .inr rfl⟩
  next hread =>
    cases h
    exact .inr ⟨.tooDeep, rfl, hread, by decide⟩
  next fault hfault hroom hread =>
    cases h
    exact .inr ⟨fault, (if_neg hroom).symm, hread, hfault⟩

/-- What YAML does not allow ends the reading. -/
theorem readYaml_fault [Interpreter] {jsonReason : Option Text} {content : Text}
    {fault : Yaml.Fault} (hread : Yaml.read content = .error fault) (hfault : fault ≠ .malformed) :
    readYaml jsonReason content = .error (ofYaml fault) := by
  unfold readYaml
  rw [hread]
  cases fault with
  | malformed => exact absurd rfl hfault
  | tooDeep | badNumber | overflow | badTruthValue | emptyNumber | badTimestamp => rfl

/-- In every notation but YAML a text is read as JSON first. -/
theorem readEntries_json [Interpreter] {given : Notation} (hgiven : given ≠ .yaml)
    (content : Text) :
    readEntries given content = match Json.read content with
      | .ok json => requireMapping (some json.toValue)
      | .error failure =>
        if failure.cause = .tooDeep then .error .tooDeep
        else if !failure.isSyntax then .error .longInteger
        else if given = .json then .error (.problem (.schemaNotJson (failure.message content)))
        else readYaml (some (failure.message content)) content := by
  cases given with
  | yaml => exact absurd rfl hgiven
  | json | either => rfl

/-- Reading fails with a problem of the schema, or by surprise. -/
theorem readEntries_error [Interpreter] {given : Notation} {content : Text} {e : Failure}
    (h : readEntries given content = .error e) :
    (∃ p : Problem, e = .problem p ∧ p.IsOfSchema) ∨ Surprise given content e := by
  -- When YAML is tried, it fails with a problem or with what YAML does not allow.
  have hyaml : ∀ {jsonReason}, (given = .yaml ∨ given = .either ∧
      ∃ failure, Json.read content = .error failure ∧ failure.isSyntax = true) →
      readYaml jsonReason content = .error e →
      (∃ p : Problem, e = .problem p ∧ p.IsOfSchema) ∨ Surprise given content e := by
    intro jsonReason htried h
    rcases readYaml_error h with hproblem | ⟨fault, rfl, hread, hfault⟩
    · exact .inl hproblem
    · unfold ofYaml
      split
      next hdeep => exact .inr (.deepYaml htried (hdeep ▸ hread))
      next hroom => exact .inr (.scalar htried hread hfault hroom)
  by_cases hgiven : given = .yaml
  · subst hgiven
    exact hyaml (.inl rfl) h
  rw [readEntries_json hgiven] at h
  rcases hread : Json.read content with failure | json
  · rw [hread] at h
    dsimp only at h
    split_ifs at h with hdeep hlong hjson
    · cases h
      exact .inr (.deepJson hgiven hread hdeep)
    · cases h
      exact .inr (.longInteger hgiven hread (by simpa using hlong) hdeep)
    · cases h
      exact .inl ⟨_, rfl, .inr rfl⟩
    · have heither : given = .either := by
        cases given with
        | json => exact absurd rfl hjson
        | yaml => exact absurd rfl hgiven
        | either => rfl
      exact hyaml (.inr ⟨heither, failure, hread, by simpa using hlong⟩) h
  · rw [hread] at h
    exact .inl (requireMapping_error h)

/-- A text that is wrong as JSON has no JSON levels too many. -/
theorem cause_ne_of_isSyntax {failure : Json.Failure} (h : failure.isSyntax = true) :
    failure.cause ≠ .tooDeep := by
  intro hdeep
  rw [Json.Failure.isSyntax, hdeep] at h
  cases h

/-- Where YAML is tried, what it does not allow ends the reading. -/
theorem readEntries_yaml [Interpreter] {given : Notation} {content : Text} {fault : Yaml.Fault}
    (htried : given = .yaml ∨ given = .either ∧
      ∃ failure, Json.read content = .error failure ∧ failure.isSyntax = true)
    (hread : Yaml.read content = .error fault) (hfault : fault ≠ .malformed) :
    readEntries given content = .error (ofYaml fault) := by
  rcases htried with rfl | ⟨rfl, failure, hjson, hwrong⟩
  · exact readYaml_fault hread hfault
  · rw [readEntries_json (by decide), hjson]
    simp only [if_neg (cause_ne_of_isSyntax hwrong), hwrong, Bool.not_true, Bool.false_eq_true,
      if_false, reduceCtorEq]
    exact readYaml_fault hread hfault

/-- A surprise ends the reading. -/
theorem Surprise.readEntries [Interpreter] {given : Notation} {content : Text} {e : Failure}
    (h : Surprise given content e) : readEntries given content = .error e := by
  cases h with
  | longInteger hgiven hread hlong hroom =>
    rw [readEntries_json hgiven, hread]
    simp only [if_neg hroom, hlong, Bool.not_false, if_true]
  | deepJson hgiven hread hdeep =>
    rw [readEntries_json hgiven, hread]
    simp only [if_pos hdeep]
  | scalar htried hread hfault hroom =>
    rw [readEntries_yaml htried hread hfault, ofYaml, if_neg hroom]
  | deepYaml htried hread =>
    rw [readEntries_yaml htried hread (by decide), ofYaml, if_pos rfl]

variable {disk : Disk} {directory path : Path}

/-- Loading a schema fails with a problem of the schema, or since reading the text of the file fails
by surprise. -/
theorem load_error [Interpreter] {isFile : Bool} (hfile : disk.isFile? path = .ok isFile)
    {e : Failure} (h : load disk path = .error e) :
    (∃ p : Problem, e = .problem p ∧ p.IsOfSchema) ∨
      ∃ content, disk.readText path = .ok content ∧ Surprise (.ofPath path) content e := by
  unfold load at h
  rw [hfile] at h
  cases isFile with
  | false =>
    cases h
    exact .inl ⟨_, rfl, .inl rfl⟩
  | true =>
    simp only [orFail, bind, Except.bind, Bool.not_true, Bool.false_eq_true, if_false] at h
    rcases htext : disk.readText path with fault | content
    · rw [htext] at h
      cases h
      exact .inl ⟨_, rfl, .inl rfl⟩
    rw [htext] at h
    dsimp only [ofContent] at h
    rcases hentries : Schema.readEntries (.ofPath path) content with failure | entries
    · rw [hentries] at h
      cases h
      exact (readEntries_error hentries).imp_right fun hsurprise => ⟨content, rfl, hsurprise⟩
    · rw [hentries] at h
      simp only [bind, Except.bind] at h
      split at h
      · cases h
      · cases h
        exact .inl ⟨_, rfl, .inr rfl⟩

/-- A file whose text is read by surprise is not loaded. -/
theorem Surprise.load [Interpreter] {content : Text} {e : Failure}
    (htext : disk.readText path = .ok content) (h : Surprise (.ofPath path) content e) :
    load disk path = .error e := by
  have hfile : disk.isFile? path = .ok true := by
    unfold Disk.readText at htext
    rcases hread : disk.read path with fault | bytes
    · rw [hread] at htext
      cases htext
    · obtain ⟨place, mode, hfind⟩ := Disk.read_eq_ok.1 hread
      exact Disk.isFile?_eq_true.2 ⟨place, mode, bytes, hfind⟩
  unfold Schema.load
  rw [hfile]
  simp only [orFail, bind, Except.bind, Bool.not_true, Bool.false_eq_true, if_false, htext,
    ofContent, h.readEntries]

/-- The schema of a project is found if each path where it can be can be asked for. -/
theorem find_done (h : ∀ c ∈ candidates directory, ∃ isFile, disk.isFile? c = .ok isFile) :
    ∃ path ∈ candidates directory, find disk directory = .ok path := by
  have hfirst : ∀ paths : List Path, (∀ c ∈ paths, ∃ isFile, disk.isFile? c = .ok isFile) →
      ∃ found, firstFile disk paths = .ok found := by
    intro paths hpaths
    induction paths with
    | nil => exact ⟨none, rfl⟩
    | cons first paths ih =>
      obtain ⟨isFile, hfile⟩ := hpaths first List.mem_cons_self
      obtain ⟨found, hfound⟩ := ih fun c hc => hpaths c (List.mem_cons_of_mem _ hc)
      unfold firstFile
      rw [hfile]
      cases isFile with
      | true => exact ⟨some first, rfl⟩
      | false => exact ⟨found, hfound⟩
  obtain ⟨found, hfound⟩ := hfirst _ h
  have hfind : find disk directory = .ok (found.getD (directory.child usualFilename)) := by
    unfold find
    rw [candidates] at hfound
    dsimp only
    rw [hfound]
    rfl
  refine ⟨_, ?_, hfind⟩
  cases found with
  | none => exact List.mem_cons_self
  | some path => exact mem_of_firstFile hfound

end Schema

/-! ## Printing a schema -/

/-- The line of a field is well-formed if its name is. -/
theorem Field.isWellFormed_source (f : Field) : f.source.isWellFormed = f.name.isWellFormed := by
  have hname : f.name.asPropertyName.isWellFormed = f.name.isWellFormed := by
    unfold Text.asPropertyName
    split <;> simp
  have htype : f.type.source.isWellFormed = true := by
    cases f.type <;> exact Text.isWellFormed_ofString _
  have hmark : (if f.optional then ("?" : Text) else "").isWellFormed = true := by
    cases f.optional <;> rfl
  unfold Field.source
  simp only [Text.isWellFormed_append, Text.isWellFormed_ofString, hname, htype, hmark,
    Bool.true_and, Bool.and_true]

/-- The lines of a declaration are well-formed if its name and those of its fields are. -/
theorem Declaration.isWellFormed_sourceLines (d : Declaration) :
    (d.sourceLines.all Text.isWellFormed) =
      (d.name.isWellFormed && d.fields.all (·.name.isWellFormed)) := by
  have hindent : Field.indent.isWellFormed = true := rfl
  have hclose : Text.isWellFormed "\x7d" = true := rfl
  unfold Declaration.sourceLines
  simp only [List.cons_append, List.all_cons, List.all_append, List.all_map, List.all_nil,
    Function.comp_def, Text.isWellFormed_append, Text.isWellFormed_ofString, hindent, hclose,
    Field.isWellFormed_source, Bool.true_and, Bool.and_true]

/-- Under the usual header a file is well-formed if the names in it are. -/
theorem DeclarationFile.isWellFormed_source {file : DeclarationFile}
    (hheader : file.header = Declaration.warningHeader) :
    file.source.isWellFormed =
      file.declarations.all fun d => d.name.isWellFormed && d.fields.all (·.name.isWellFormed) := by
  have hlines : (headerLines Declaration.warningHeader).all Text.isWellFormed = true := by
    decide +kernel
  unfold DeclarationFile.source DeclarationFile.sourceLines
  rw [hheader, Text.isWellFormed_flatMap]
  simp only [Text.isWellFormed_append, Text.isWellFormed_ofString, Bool.and_true]
  rw [List.all_append, hlines, List.all_flatMap]
  simp only [Bool.true_and, Declaration.isWellFormed_sourceLines]

namespace Declaration

/-- The names that the declarations of resources show: those of the types that the tokens name, and
those of the properties. -/
def Shows (resources : List (Text × Resource)) (name : Text) : Prop :=
  ∃ entry ∈ resources, NamesType entry.1 name ∨
    ∃ property ∈ entry.2.inputProperties.getD [] ++ entry.2.properties.getD [], property.1 = name

/-- The fields of a group have the names of its properties. -/
theorem all_fieldsOf (group : Option (List (Text × Property))) (required : Option (List Text))
    (p : Text → Bool) :
    ((fieldsOf group required).all fun f => p f.name) = (group.getD []).all fun e => p e.1 := by
  unfold fieldsOf
  rw [List.all_map]
  rfl

/-- What resources show is what the first one shows or what the others show. -/
theorem shows_cons (entry : Text × Resource) (rest : List (Text × Resource)) (name : Text) :
    Shows (entry :: rest) name ↔ Shows [entry] name ∨ Shows rest name := by
  simp [Shows]

/-- The names in the declarations of a resource are well-formed if those that they show are. -/
theorem ofResource_isWellFormed {token : Text} {resource : Resource} {own : List Declaration}
    (h : ofResource token resource = .ok own) :
    (own.all fun d => d.name.isWellFormed && d.fields.all (·.name.isWellFormed)) = true ↔
      ∀ name, Shows [(token, resource)] name → name.isWellFormed = true := by
  have hnames : ∃ name, NamesType token name := by
    by_contra hnone
    rw [ofResource_of_not_names (not_exists.1 hnone)] at h
    cases h
  obtain ⟨name, hname⟩ := hnames
  rw [ofResource_of_names hname] at h
  cases h
  simp only [pair, List.all_cons, List.all_nil, Bool.and_true, Bool.and_eq_true,
    Text.isWellFormed_append, Text.isWellFormed_ofString, all_fieldsOf, List.all_eq_true]
  constructor
  · rintro ⟨⟨hwell, hinputs⟩, -, houtputs⟩ shown ⟨entry, hentry, hshown⟩
    obtain rfl := List.mem_singleton.1 hentry
    rcases hshown with hshown | ⟨property, hproperty, rfl⟩
    · rwa [← names_unique hname hshown]
    · exact (List.mem_append.1 hproperty).elim (hinputs property) (houtputs property)
  · intro hall
    have htype := hall name ⟨_, List.mem_singleton_self _, .inl hname⟩
    have hproperty : ∀ property ∈
        resource.inputProperties.getD [] ++ resource.properties.getD [],
        property.1.isWellFormed = true :=
      fun property hmem => hall _ ⟨_, List.mem_singleton_self _, .inr ⟨property, hmem, rfl⟩⟩
    exact ⟨⟨htype, fun e he => hproperty e (List.mem_append_left _ he)⟩, htype,
      fun e he => hproperty e (List.mem_append_right _ he)⟩

/-- The names in declarations are well-formed if those that they show are. -/
theorem ofResources_isWellFormed {resources : List (Text × Resource)}
    {declarations : List Declaration} (h : ofResources resources = .ok declarations) :
    (declarations.all fun d => d.name.isWellFormed && d.fields.all (·.name.isWellFormed)) = true ↔
      ∀ name, Shows resources name → name.isWellFormed = true := by
  -- By induction on the resources: the first one adds its two declarations.
  induction resources generalizing declarations with
  | nil =>
    cases h
    simp [Shows]
  | cons entry rest ih =>
    rw [ofResources] at h
    obtain ⟨own, hown, h⟩ := except_bind_eq_ok.1 h
    obtain ⟨others, hothers, h⟩ := except_bind_eq_ok.1 h
    cases h
    rw [List.all_append, Bool.and_eq_true, ofResource_isWellFormed hown, ih hothers, ← forall_and]
    exact forall_congr' fun name => by rw [shows_cons entry rest, or_imp]

end Declaration

namespace Schema

variable {schema : Schema}

/-- A schema whose tokens all name types is printed. -/
theorem source_done (h : ∀ entry ∈ schema.resources, ∃ name, NamesType entry.1 name) :
    ∃ text count, schema.source = .ok (text, count) := by
  obtain ⟨declarations, hok, -⟩ := Declaration.ofResources_ok h
  unfold source Schema.declarations
  rw [hok]
  exact ⟨_, _, rfl⟩

/-- A schema with a token that names no type is not printed, which is a problem of the schema. -/
theorem source_rejected (h : ¬ ∀ entry ∈ schema.resources, ∃ name, NamesType entry.1 name) :
    ∃ p : Problem, schema.source = .error (.problem p) ∧ p.IsOfSchema := by
  obtain ⟨-, token, -, -, -, -, -, herror⟩ := Declaration.ofResources_error h
  refine ⟨.badToken token, ?_, .inr rfl⟩
  unfold source Schema.declarations
  rw [herror]
  rfl

/-- If a schema is printed, its tokens all name types. -/
theorem names_of_source {text : Text} {count : Nat} (h : schema.source = .ok (text, count)) :
    ∀ entry ∈ schema.resources, ∃ name, NamesType entry.1 name := by
  by_contra hbad
  obtain ⟨p, hproblem, -⟩ := source_rejected hbad
  rw [hproblem] at h
  cases h

/-- If a schema is not printed, this is a problem of the schema. -/
theorem source_error {e : Failure} (h : schema.source = .error e) :
    ∃ p : Problem, e = .problem p ∧ p.IsOfSchema := by
  by_cases hnames : ∀ entry ∈ schema.resources, ∃ name, NamesType entry.1 name
  · obtain ⟨text, count, hok⟩ := source_done hnames
    rw [hok] at h
    cases h
  · obtain ⟨p, hproblem, hschema⟩ := source_rejected hnames
    rw [hproblem] at h
    cases h
    exact ⟨p, rfl, hschema⟩

/-- What is printed cannot be written if and only if a name that it shows has a lone surrogate. -/
theorem encode?_source {text : Text} {count : Nat} (h : schema.source = .ok (text, count)) :
    Utf8.encode? text = none ↔
      ∃ name, Declaration.Shows schema.resources name ∧ name.isWellFormed = false := by
  obtain ⟨file, hfile, rfl⟩ := source_eq_ok h
  unfold Schema.declarations at hfile
  rcases hdeclared : Declaration.ofResources schema.resources with problem | declarations
  · rw [hdeclared] at hfile
    cases hfile
  rw [hdeclared] at hfile
  cases hfile
  rw [Utf8.encode?_eq_none, DeclarationFile.isWellFormed_source rfl, ← Bool.not_eq_true,
    Declaration.ofResources_isWellFormed hdeclared]
  simp

end Schema

/-! ## Generating -/

/-- Some text can be written to a file as a whole. -/
def Disk.Takes [Interpreter] (disk : Disk) (draws : List Text) (target : Path) : Prop :=
  ∃ text left, disk.writeWhole draws target text = (.ok (), left)

/-- A path leads to a file or to nothing. -/
def Disk.FileOrNothing (disk : Disk) (path : Path) : Prop :=
  (∃ place mode content, disk.find true path = .ok (place, .file mode content)) ∨
    ∃ fault, disk.find true path = .error fault ∧ fault.isAbsence = true

/-- A path that leads to a file or to nothing can be asked for a file. -/
theorem Disk.FileOrNothing.isFile? {disk : Disk} {path : Path} (h : disk.FileOrNothing path) :
    ∃ isFile, disk.isFile? path = .ok isFile := by
  unfold Disk.isFile? Disk.test
  rcases h with ⟨place, mode, content, hfind⟩ | ⟨fault, hfind, habsent⟩
  · rw [hfind]
    exact ⟨_, rfl⟩
  · rw [hfind]
    dsimp only
    rw [habsent]
    exact ⟨_, rfl⟩

/-- Where some text can be written, each text that can be encoded can. -/
theorem Disk.Takes.writeWhole [Interpreter] {disk : Disk} {draws : List Text} {directory : Path}
    {name : Text} {place : Place} (h : disk.Takes draws (directory.child name))
    (hwf : disk.WellFormed) (henters : Enters disk directory place)
    (hname : 2 < Utf8.losslessSize name)
    (hshort : Utf8.losslessSize (Utf8.canonical name) ≤ nameLimit) {text : Text} {bytes : Bytes}
    (hbytes : Utf8.encode? text = some bytes) :
    ∃ left, disk.writeWhole draws (directory.child name) text = (.ok (), left) := by
  obtain ⟨other, left, hother⟩ := h
  obtain ⟨hgivable, -, hplace, -⟩ := (Disk.writeWhole_view hwf henters hname draws other).1 _ hother
  obtain ⟨⟨temporary, htemporary⟩, -⟩ := Disk.writeWhole_needs henters hother
  obtain ⟨written, hwrite, -⟩ :=
    Disk.writeWhole_done hwf henters hname hshort hgivable hplace htemporary hbytes
  exact ⟨written, hwrite⟩

/-- A text that cannot be encoded is not written where another one can. -/
theorem Disk.Takes.unencodable [Interpreter] {disk : Disk} {draws : List Text} {directory : Path}
    {name : Text} {place : Place} (h : disk.Takes draws (directory.child name))
    (henters : Enters disk directory place) (hgivable : Disk.IsGivable (directory.child name))
    {text : Text} (hbytes : Utf8.encode? text = none) :
    (disk.writeWhole draws (directory.child name) text).1 = .error .unencodable := by
  obtain ⟨other, left, hother⟩ := h
  obtain ⟨⟨temporary, htemporary⟩, -⟩ := Disk.writeWhole_needs henters hother
  obtain ⟨draw, -, rfl, place', hlocate, -⟩ := Disk.temporaryPath_ok htemporary
  unfold Disk.writeWhole Disk.writeOn
  rw [Path.parent_child, Path.name_child,
    Disk.makeDirectories_done henters (Disk.isGivable_of_child hgivable)]
  dsimp only
  rw [htemporary]
  dsimp only
  rw [hlocate, hbytes]
  rfl

/-- Where some text can be written, a text is written unless it cannot be encoded. -/
theorem Disk.Takes.outcome [Interpreter] {disk : Disk} {draws : List Text} {directory : Path}
    {name : Text} {place : Place} (h : disk.Takes draws (directory.child name))
    (hwf : disk.WellFormed) (henters : Enters disk directory place)
    (hname : 2 < Utf8.losslessSize name)
    (hshort : Utf8.losslessSize (Utf8.canonical name) ≤ nameLimit) (text : Text) :
    (disk.writeWhole draws (directory.child name) text).1 =
      if Utf8.encode? text = none then .error .unencodable else .ok () := by
  rcases hbytes : Utf8.encode? text with _ | bytes
  · have hgivable : Disk.IsGivable (directory.child name) := by
      obtain ⟨other, left, hother⟩ := h
      exact ((Disk.writeWhole_view hwf henters hname draws other).1 _ hother).1
    exact h.unencodable henters hgivable hbytes
  · obtain ⟨left, hwrite⟩ := h.writeWhole hwf henters hname hshort hbytes
    rw [hwrite]
    rfl

/-- How generating in a directory can fail, other than by a problem of the schema. -/
inductive Unforeseen [Interpreter] (disk : Disk) (directory : Path) : Failure → Prop where
  /-- The text of the schema ends the reading. -/
  | read {path : Path} {content : Text} {e : Failure}
      (hfind : Schema.find disk directory = .ok path)
      (htext : disk.readText path = .ok content)
      (hsurprise : Schema.Surprise (.ofPath path) content e) : Unforeseen disk directory e
  /-- The declarations show a name with a lone surrogate, and all tokens name types. -/
  | written {path : Path} {schema : Schema} {name : Text}
      (hfind : Schema.find disk directory = .ok path)
      (hload : Schema.load disk path = .ok schema)
      (htokens : ∀ entry ∈ schema.resources, ∃ name, NamesType entry.1 name)
      (hshows : Declaration.Shows schema.resources name)
      (hsurrogate : name.isWellFormed = false) : Unforeseen disk directory .unencodable

/-- Generating from a schema that is found and loaded is printing it and writing what is printed. -/
theorem perform_generate [Interpreter] {draws : List Text} {directory path : Path} {schema : Schema}
    {w : World} (hfind : Schema.find w.disk directory = .ok path)
    (hload : Schema.load w.disk path = .ok schema) :
    ((generate draws directory).perform w).1 = match schema.source with
      | .error e => .error e
      | .ok (text, _) =>
        match (w.disk.writeWhole draws (directory.child declarationFilename) text).1 with
        | .error e => .error e
        | .ok _ => .ok (directory.child declarationFilename) := by
  unfold generate
  rw [Run.perform_bind_ok _ (by rw [Run.perform_look, hfind]),
    Run.perform_bind_ok _ (Run.perform_say _ _),
    Run.perform_bind_ok _ (by rw [Run.perform_look, hload])]
  rcases hsource : schema.source with e | ⟨text, count⟩
  · rw [Run.perform_bind_error _ (by rw [Run.perform_ofExcept])]
  rw [Run.perform_bind_ok _ (by rw [Run.perform_ofExcept])]
  dsimp only
  rcases hwrite : w.disk.writeWhole draws (directory.child declarationFilename) text with
    ⟨e | ⟨⟩, left⟩
  · rw [Run.perform_bind_error _ (by rw [Run.perform_step, hwrite])]
  · rw [Run.perform_bind_ok _ (by rw [Run.perform_step, hwrite]),
      Run.perform_bind_ok _ (Run.perform_say _ _), Run.perform_pure]

/-- Generating from a schema that is not loaded fails for the same reason. -/
theorem perform_generate_of_load_error [Interpreter] {draws : List Text} {directory path : Path}
    {w : World} {e : Failure} (hfind : Schema.find w.disk directory = .ok path)
    (hload : Schema.load w.disk path = .error e) :
    ((generate draws directory).perform w).1 = .error e := by
  unfold generate
  rw [Run.perform_bind_ok _ (by rw [Run.perform_look, hfind]),
    Run.perform_bind_ok _ (Run.perform_say _ _),
    Run.perform_bind_error _ (by rw [Run.perform_look, hload])]

/-- A project whose only file is a schema. -/
def schemaDisk (name : Text) (content : String) : Disk where
  entries :=
    [([Text.ofString "p"], .directory),
     ([Text.ofString "p", name], .file .usual (.ofChars content.toList))]

/-- What is checked of a project: it is well-formed, some text can be written to its declarations,
and each path where a schema can be leads to a file or to nothing. -/
def takesSchema [Interpreter] (disk : Disk) : Bool :=
  disk.isWellFormed &&
  (disk.writeWhole ["a"] (Path.child ⟨.single, ["p"]⟩ declarationFilename) []).1.isOk &&
  (Schema.candidates ⟨.single, ["p"]⟩).all fun c =>
    match disk.find true c with
    | .ok (_, .file _ _) => true
    | .ok _ => false
    | .error fault => fault.isAbsence

/-- What has been checked holds. -/
theorem takesSchema_spec [Interpreter] {disk : Disk} (h : takesSchema disk = true) :
    disk.WellFormed ∧ disk.Takes ["a"] (Path.child ⟨.single, ["p"]⟩ declarationFilename) ∧
      ∀ c ∈ Schema.candidates ⟨.single, ["p"]⟩, disk.FileOrNothing c := by
  unfold takesSchema at h
  rw [Bool.and_eq_true, Bool.and_eq_true, List.all_eq_true] at h
  obtain ⟨⟨hwf, hwrite⟩, hall⟩ := h
  refine ⟨Disk.wellFormed_of_check hwf, ?_, fun c hc => ?_⟩
  · rcases hwritten : disk.writeWhole ["a"] (Path.child ⟨.single, ["p"]⟩ declarationFilename) []
      with ⟨e | ⟨⟩, left⟩
    · rw [hwritten] at hwrite
      cases hwrite
    · exact ⟨[], left, hwritten⟩
  · have hc := hall c hc
    split at hc
    next place mode content hfind => exact .inl ⟨place, mode, content, hfind⟩
    next => cases hc
    next fault hfind => exact .inr ⟨fault, hfind, hc⟩

/-- Whether reading YAML ends at the fault. -/
def isFault (outcome : Except Yaml.Fault (Option Value)) (fault : Yaml.Fault) : Bool :=
  match outcome with
  | .error found => found = fault
  | .ok _ => false

/-- What has been checked is the outcome. -/
theorem fault_of_check {outcome : Except Yaml.Fault (Option Value)} {fault : Yaml.Fault}
    (h : isFault outcome fault = true) : outcome = .error fault := by
  cases outcome with
  | error found => exact congrArg Except.error (of_decide_eq_true h)
  | ok value => cases h

/-- A YAML schema with a date in the thirteenth month. -/
def badDate : Disk := schemaDisk "schema.yaml" "since: 2024-13-45\n"

/-- A JSON schema with a token that names its type by a lone surrogate. -/
def loneSurrogate : Disk :=
  schemaDisk Schema.usualFilename "\x7b\"resources\": \x7b\"a:b:\\ud800\": \x7b\x7d\x7d\x7d"

/-- Whether an outcome is a text that cannot be encoded. -/
def isUnencodable : Except Failure Path → Bool
  | .error .unencodable => true
  | _ => false

/-- What has been checked is the outcome. -/
theorem unencodable_of_check {outcome : Except Failure Path} (h : isUnencodable outcome = true) :
    outcome = .error .unencodable := by
  unfold isUnencodable at h
  split at h
  next => rfl
  next => cases h

end ProviderKit
