import ProviderKit.Proofs.Build.StagedFiles
import ProviderKit.Proofs.Disk.Walk

/-!
# How discovery fails

Discovery is meant to fail with problems of the configuration only: there is no package file, it
holds no object, or the object has no name. `discover_reports` says of every disk and directory what
is found out and when each of the problems is reported. Two other failures remain. Whether a file is
there is asked of the disk four times, and the disk gives no answer if the path, or a link that it
leads through, is too long (`Unanswered`). It happens in a project that has nothing else wrong with
it (`discover_unanswered`). And a package file may be nested more deeply than the interpreter reads
(`Overdeep`).
-/

namespace ProviderKit

/-- A problem with the configuration of a project, of whatever kind. -/
def Problem.IsOfConfiguration (p : Problem) : Prop :=
  Category.configuration ∈ p.report.category.ancestors

/-- A disk that does not say whether a file is there finds the way there too long. -/
theorem Disk.isFile?_error {disk : Disk} {path : Path} {fault : Fault}
    (h : disk.isFile? path = .error fault) : fault = .refused .nameTooLong path := by
  unfold isFile? test at h
  split at h
  · cases h
  next hfind =>
    split at h
    · cases h
    next habsence =>
      cases h
      exact (find_fault hfind).resolve_left habsence

namespace Package

/-- The package file of a directory holds a document: its bytes are UTF-8, and the text is read
as the document. -/
def Describes [Interpreter] (disk : Disk) (directory : Path) (document : Json) : Prop :=
  ∃ content text, disk.read (directory.child packageFilename) = .ok content ∧
    Utf8.decode content.data = .ok text ∧ Json.read text.normalizeNewlines = .ok document

/-- The package file holds an object with a name. -/
def Named [Interpreter] (disk : Disk) (directory : Path) : Prop :=
  ∃ members name, Describes disk directory (.object members) ∧
    Json.lookup "name" members = some (.text name)

/-- The text of the package file is nested more deeply than the interpreter reads. -/
def Overdeep [Interpreter] (disk : Disk) (directory : Path) : Prop :=
  ∃ content text failure, disk.read (directory.child packageFilename) = .ok content ∧
    Utf8.decode content.data = .ok text ∧ Json.read text.normalizeNewlines = .error failure ∧
    failure.cause = .tooDeep

/-- The disk does not say whether a directory has a file of this name. -/
def Withheld (disk : Disk) (directory : Path) (name : Text) : Prop :=
  disk.isFile? (directory.child name) = .error (.refused .nameTooLong (directory.child name))

/-- Discovery asks for a file of this name, in the order of the cases, and gets no answer. -/
inductive Unanswered [Interpreter] (disk : Disk) (directory : Path) : Text → Prop where
  | package (h : Withheld disk directory packageFilename) :
      Unanswered disk directory packageFilename
  | compiler (hnamed : Named disk directory) (h : Withheld disk directory compilerFilename) :
      Unanswered disk directory compilerFilename
  | consolidated {compiled : Bool} (hnamed : Named disk directory)
      (hcompiler : disk.isFile? (directory.child compilerFilename) = .ok compiled)
      (h : Withheld disk directory "package-lock.json") :
      Unanswered disk directory "package-lock.json"
  | distributed {compiled : Bool} (hnamed : Named disk directory)
      (hcompiler : disk.isFile? (directory.child compilerFilename) = .ok compiled)
      (hconsolidated : disk.isFile? (directory.child "package-lock.json") = .ok false)
      (h : Withheld disk directory "yarn.lock") :
      Unanswered disk directory "yarn.lock"

section

variable {disk : Disk} {directory : Path}

/-! ## Loading the package file -/

/-- A content that is no object is a problem of the configuration, unless it is nested too deeply.
-/
theorem ofContent_error [Interpreter] {path : Path} {content : Text} {e : Failure}
    (h : ofContent path content = .error e) :
    (∃ p, e = .problem p ∧ p.report.category = .configuration) ∨
      e = .tooDeep ∧ ∃ failure, Json.read content = .error failure ∧ failure.cause = .tooDeep := by
  unfold ofContent at h
  split at h
  next failure hread =>
    split at h
    next hdeep =>
      cases h
      exact .inr ⟨rfl, failure, hread, hdeep⟩
    next =>
      cases h
      exact .inl ⟨_, rfl, rfl⟩
  next => cases h
  next =>
    cases h
    exact .inl ⟨_, rfl, rfl⟩

/-- A package file that can be decoded was read from the disk. -/
theorem read_of_readText {path : Path} {text : Text} (h : disk.readText path = .ok text) :
    ∃ content decoded, disk.read path = .ok content ∧ Utf8.decode content.data = .ok decoded ∧
      text = decoded.normalizeNewlines := by
  unfold Disk.readText at h
  rcases hread : disk.read path with fault | content
  · simp only [hread] at h
    cases h
  rcases hdecode : Utf8.decode content.data with fault | decoded
  · simp only [hread, hdecode] at h
    cases h
  · simp only [hread, hdecode] at h
    cases h
    exact ⟨content, decoded, rfl, hdecode, rfl⟩

/-- Loading fails with a problem of the configuration once the disk says whether there is a package
file, unless it is nested too deeply; otherwise it fails as the disk does. -/
theorem load_error [Interpreter] {e : Failure} (h : load disk directory = .error e) :
    (∃ p answer, disk.isFile? (directory.child packageFilename) = .ok answer ∧
      e = .problem p ∧ p.report.category = .configuration) ∨
    (∃ fault, disk.isFile? (directory.child packageFilename) = .error fault ∧ e = .disk fault) ∨
    Overdeep disk directory ∧ e = .tooDeep := by
  unfold load at h
  obtain hfile | ⟨answer, hanswer, h⟩ := except_bind_eq_error.1 h
  · exact .inr (.inl (orFail_eq_error.1 hfile))
  have hfile := orFail_eq_ok.1 hanswer
  cases answer with
  | false =>
    cases h
    exact .inl ⟨_, false, hfile, rfl, rfl⟩
  | true =>
    simp only [Bool.not_true, Bool.false_eq_true, if_false] at h
    rcases htext : disk.readText (directory.child packageFilename) with fault | text
    · simp only [htext] at h
      cases h
      exact .inl ⟨_, true, hfile, rfl, rfl⟩
    · simp only [htext] at h
      obtain ⟨p, rfl, hp⟩ | ⟨rfl, failure, hjson, hcause⟩ := ofContent_error h
      · exact .inl ⟨p, true, hfile, rfl, hp⟩
      · obtain ⟨content, decoded, hread, hdecode, rfl⟩ := read_of_readText htext
        exact .inr (.inr ⟨⟨content, decoded, failure, hread, hdecode, hjson, hcause⟩, rfl⟩)

/-- A package file that is nested too deeply is not loaded. -/
theorem load_overdeep [Interpreter] (h : Overdeep disk directory) :
    load disk directory = .error .tooDeep := by
  obtain ⟨content, text, failure, hread, hdecode, hjson, hcause⟩ := h
  obtain ⟨place, mode, hfind⟩ := Disk.read_eq_ok.1 hread
  have hfile : disk.isFile? (directory.child packageFilename) = .ok true :=
    Disk.isFile?_eq_true.2 ⟨place, mode, content, hfind⟩
  unfold load Disk.readText
  dsimp only
  rw [hfile, hread]
  dsimp only
  rw [hdecode]
  simp only [ofContent, hjson, hcause, if_true]
  rfl

/-- Loading fails as the disk does if and only if the disk does not say whether there is a package
file. -/
theorem load_withheld [Interpreter] {fault : Disk.Fault} :
    load disk directory = .error (.disk fault) ↔
      Withheld disk directory packageFilename ∧
        fault = .refused .nameTooLong (directory.child packageFilename) := by
  constructor
  · intro h
    obtain ⟨p, -, -, he, -⟩ | ⟨other, hfile, he⟩ | ⟨-, he⟩ := load_error h
    · cases he
    · cases he
      obtain rfl := Disk.isFile?_error hfile
      exact ⟨hfile, rfl⟩
    · cases he
  · rintro ⟨hfile, rfl⟩
    unfold load
    exact except_bind_eq_error.2 (.inl (orFail_eq_error.2 ⟨_, hfile, rfl⟩))

/-! ## The name and the version -/

/-- The members give a name if it is a text, and then a version: the text that is there, or the
default one. -/
theorem identity_eq_ok {members : List (Text × Json)} {name version : Text} :
    identity members = .ok (name, version) ↔
      Json.lookup "name" members = some (.text name) ∧
      (∀ stated, Json.lookup "version" members = some (.text stated) → version = stated) ∧
      ((∀ stated, Json.lookup "version" members ≠ some (.text stated)) →
        version = defaultVersion) := by
  unfold identity
  split
  next n hname =>
    split
    next v hversion => simp [hname, hversion, eq_comm]
    next hversion =>
      have hnone : ∀ stated, Json.lookup "version" members ≠ some (.text stated) := hversion
      simp [hname, hnone, eq_comm]
  next hname =>
    have hnone : Json.lookup "name" members ≠ some (.text name) := hname name
    simp [hnone]

/-- Members without a name that is a text give none, which is a problem of its own. -/
theorem identity_eq_error {members : List (Text × Json)} {p : Problem} :
    identity members = .error p ↔
      p = .nameMissing ∧ ∀ name, Json.lookup "name" members ≠ some (.text name) := by
  unfold identity
  split
  next n hname => split <;> simp [hname]
  next hname =>
    have hnone : ∀ name, Json.lookup "name" members ≠ some (.text name) := hname
    simp [hnone, eq_comm]

/-- A package file with a name was loaded and gave it. -/
theorem named_iff [Interpreter] : Named disk directory ↔
    ∃ members identified, load disk directory = .ok members ∧
      identity members = .ok identified := by
  constructor
  · rintro ⟨members, name, hload, hname⟩
    refine ⟨members, ?_⟩
    rcases hidentity : identity members with p | identified
    · exact absurd hname ((identity_eq_error.1 hidentity).2 name)
    · exact ⟨identified, load_eq_ok.2 hload, rfl⟩
  · rintro ⟨members, ⟨name, version⟩, hload, hidentity⟩
    exact ⟨members, name, load_eq_ok.1 hload, (identity_eq_ok.1 hidentity).1⟩

/-! ## Discovery -/

/-- Which lock file is there stays open only if the disk does not say so: of the consolidated one,
or without it of the distributed one. -/
theorem lockConvention?_eq_error {e : Failure} :
    lockConvention? disk directory = .error e ↔ ∃ fault, e = .disk fault ∧
      (disk.isFile? (directory.child "package-lock.json") = .error fault ∨
        disk.isFile? (directory.child "package-lock.json") = .ok false ∧
          disk.isFile? (directory.child "yarn.lock") = .error fault) := by
  have hconsolidated : LockConvention.consolidated.filename?.getD [] = "package-lock.json" := rfl
  have hdistributed : LockConvention.distributed.filename?.getD [] = "yarn.lock" := rfl
  unfold lockConvention?
  simp only [hconsolidated, hdistributed]
  rcases disk.isFile? (directory.child "package-lock.json") with fault | _ | _
  · simp [orFail, bind, Except.bind, eq_comm]
  · rcases disk.isFile? (directory.child "yarn.lock") with fault | _ | _ <;>
      simp [orFail, bind, Except.bind, pure, Except.pure, eq_comm]
  · simp [orFail, bind, Except.bind, pure, Except.pure]

/-- Discovery fails where the package file cannot be loaded, where it gives no name, or where the
disk does not say which other files there are. -/
theorem discover_eq_error [Interpreter] {e : Failure} :
    discover disk directory = .error e ↔ load disk directory = .error e ∨
      ∃ members, load disk directory = .ok members ∧
        ((∃ p, identity members = .error p ∧ e = .problem p) ∨
          ∃ identified, identity members = .ok identified ∧
            ((∃ fault, disk.isFile? (directory.child compilerFilename) = .error fault ∧
                e = .disk fault) ∨
              ∃ compiled, disk.isFile? (directory.child compilerFilename) = .ok compiled ∧
                lockConvention? disk directory = .error e)) := by
  unfold discover
  simp only [except_bind_eq_error, orProblem_eq_error, orProblem_eq_ok, orFail_eq_error,
    orFail_eq_ok, pure, Except.pure, reduceCtorEq, and_false, exists_false, or_false]

/-- Discovery fails as the disk does if and only if a file it asks for stays unanswered. -/
theorem discover_withheld [Interpreter] {fault : Disk.Fault} :
    discover disk directory = .error (.disk fault) ↔
      ∃ name, Unanswered disk directory name ∧
        fault = .refused .nameTooLong (directory.child name) := by
  rw [discover_eq_error, load_withheld]
  constructor
  · rintro (⟨hfile, rfl⟩ | ⟨members, hload, ⟨p, -, he⟩ | ⟨identified, hidentity, hrest⟩⟩)
    · exact ⟨_, .package hfile, rfl⟩
    · cases he
    have hnamed := named_iff.2 ⟨members, identified, hload, hidentity⟩
    obtain ⟨other, hcompiler, he⟩ | ⟨compiled, hcompiler, hlock⟩ := hrest
    · cases he
      obtain rfl := Disk.isFile?_error hcompiler
      exact ⟨_, .compiler hnamed hcompiler, rfl⟩
    obtain ⟨other, he, hconsolidated | ⟨hconsolidated, hdistributed⟩⟩ :=
      lockConvention?_eq_error.1 hlock
    · cases he
      obtain rfl := Disk.isFile?_error hconsolidated
      exact ⟨_, .consolidated hnamed hcompiler hconsolidated, rfl⟩
    · cases he
      obtain rfl := Disk.isFile?_error hdistributed
      exact ⟨_, .distributed hnamed hcompiler hconsolidated hdistributed, rfl⟩
  · rintro ⟨name, hunanswered, rfl⟩
    cases hunanswered with
    | package h => exact .inl ⟨h, rfl⟩
    | compiler hnamed h =>
      obtain ⟨members, identified, hload, hidentity⟩ := named_iff.1 hnamed
      exact .inr ⟨members, hload, .inr ⟨identified, hidentity, .inl ⟨_, h, rfl⟩⟩⟩
    | consolidated hnamed hcompiler h =>
      obtain ⟨members, identified, hload, hidentity⟩ := named_iff.1 hnamed
      exact .inr ⟨members, hload, .inr ⟨identified, hidentity, .inr ⟨_, hcompiler,
        lockConvention?_eq_error.2 ⟨_, rfl, .inl h⟩⟩⟩⟩
    | distributed hnamed hcompiler hconsolidated h =>
      obtain ⟨members, identified, hload, hidentity⟩ := named_iff.1 hnamed
      exact .inr ⟨members, hload, .inr ⟨identified, hidentity, .inr ⟨_, hcompiler,
        lockConvention?_eq_error.2 ⟨_, rfl, .inr ⟨hconsolidated, h⟩⟩⟩⟩⟩

/-- A problem that discovery reports is that of the name, or one of loading the package file. -/
theorem discover_problem [Interpreter] {p : Problem}
    (h : discover disk directory = .error (.problem p)) :
    load disk directory = .error (.problem p) ∧ p.report.category = .configuration ∨
      p = .nameMissing ∧ ∃ members, load disk directory = .ok members ∧
        ∀ name, Json.lookup "name" members ≠ some (.text name) := by
  obtain hload | ⟨members, hload, ⟨other, hidentity, he⟩ | ⟨_, _, hrest⟩⟩ := discover_eq_error.1 h
  · obtain ⟨other, -, -, he, hcategory⟩ | ⟨_, _, he⟩ | ⟨_, he⟩ := load_error hload <;> cases he
    exact .inl ⟨hload, hcategory⟩
  · cases he
    obtain ⟨rfl, hname⟩ := identity_eq_error.1 hidentity
    exact .inr ⟨rfl, members, hload, hname⟩
  · obtain ⟨_, _, he⟩ | ⟨_, _, hlock⟩ := hrest
    · cases he
    · obtain ⟨_, he, _⟩ := lockConvention?_eq_error.1 hlock
      cases he

/-- The name is reported as missing if and only if the package file holds an object in which no text
is the name. -/
theorem discover_nameless [Interpreter] :
    (∃ p, discover disk directory = .error (.problem p) ∧ p.report.category = .missingName) ↔
      ∃ members, Describes disk directory (.object members) ∧
        ∀ name, Json.lookup "name" members ≠ some (.text name) := by
  constructor
  · rintro ⟨p, h, hcategory⟩
    obtain ⟨-, hother⟩ | ⟨-, members, hload, hname⟩ := discover_problem h
    · rw [hother] at hcategory
      cases hcategory
    · exact ⟨members, load_eq_ok.1 hload, hname⟩
  · rintro ⟨members, hdescribes, hname⟩
    have hidentity : identity members = .error .nameMissing := identity_eq_error.2 ⟨rfl, hname⟩
    exact ⟨.nameMissing, discover_eq_error.2 (.inr ⟨members, load_eq_ok.2 hdescribes,
      .inl ⟨_, hidentity, rfl⟩⟩), rfl⟩

/-- Another problem of the configuration is reported if and only if the disk says whether there is a
package file, and it holds no object and is not nested too deeply. -/
theorem discover_objectless [Interpreter] :
    (∃ p, discover disk directory = .error (.problem p) ∧ p.report.category = .configuration) ↔
      ¬ Withheld disk directory packageFilename ∧ ¬ Overdeep disk directory ∧
        ∀ members, ¬ Describes disk directory (.object members) := by
  constructor
  · rintro ⟨p, h, hcategory⟩
    obtain ⟨hload, -⟩ | ⟨rfl, -⟩ := discover_problem h
    · refine ⟨?_, ?_, ?_⟩
      · intro hwithheld
        have hfault := load_withheld.2 ⟨hwithheld, rfl⟩
        rw [hload] at hfault
        cases hfault
      · intro hdeep
        rw [load_overdeep hdeep] at hload
        cases hload
      · intro members hdescribes
        rw [load_eq_ok.2 hdescribes] at hload
        cases hload
    · cases hcategory
  · rintro ⟨hanswered, hshallow, hobject⟩
    rcases hload : load disk directory with e | members
    · obtain ⟨p, -, -, rfl, hcategory⟩ | ⟨fault, hfile, rfl⟩ | ⟨hdeep, -⟩ := load_error hload
      · exact ⟨p, discover_eq_error.2 (.inl hload), hcategory⟩
      · exact absurd (load_withheld.1 hload).1 hanswered
      · exact absurd hdeep hshallow
    · exact absurd (load_eq_ok.1 hload) (hobject members)

/-- Discovery fails with a problem of the configuration, or as the disk does, or since the package
file is nested too deeply. -/
theorem discover_error [Interpreter] {e : Failure} (h : discover disk directory = .error e) :
    (∃ p, e = .problem p ∧ p.IsOfConfiguration) ∨ (∃ fault, e = .disk fault) ∨
      Overdeep disk directory ∧ e = .tooDeep := by
  have hancestors : Category.configuration ∈ Category.missingName.ancestors := by decide
  obtain hload | ⟨members, -, ⟨p, hidentity, rfl⟩ | ⟨_, _, hrest⟩⟩ := discover_eq_error.1 h
  · obtain ⟨p, -, -, rfl, hcategory⟩ | ⟨fault, -, rfl⟩ | hdeep := load_error hload
    · refine .inl ⟨p, rfl, ?_⟩
      rw [Problem.IsOfConfiguration, hcategory]
      decide
    · exact .inr (.inl ⟨fault, rfl⟩)
    · exact .inr (.inr hdeep)
  · obtain ⟨rfl, -⟩ := identity_eq_error.1 hidentity
    exact .inl ⟨_, rfl, by simp [Problem.IsOfConfiguration, Problem.report, hancestors]⟩
  · obtain ⟨fault, -, rfl⟩ | ⟨_, _, hlock⟩ := hrest
    · exact .inr (.inl ⟨fault, rfl⟩)
    · obtain ⟨fault, rfl, -⟩ := lockConvention?_eq_error.1 hlock
      exact .inr (.inl ⟨fault, rfl⟩)

end

/-- What discovery gives, of every disk and directory. A package is what the object in the package
file says; an object without a name that is a text is a problem of its own; any other content, and a
package file that is not there, is a problem of the configuration. Nothing else happens, unless the
disk does not say whether one of the files is there, or the package file is nested more deeply than
the interpreter reads. -/
theorem discover_reports [Interpreter] (disk : Disk) (directory : Path) :
    (∀ package, discover disk directory = .ok package →
      ∃ members, Describes disk directory (.object members) ∧
        Json.lookup "name" members = some (.text package.name) ∧
        (∀ stated, Json.lookup "version" members = some (.text stated) →
          package.version = stated) ∧
        ((∀ stated, Json.lookup "version" members ≠ some (.text stated)) →
          package.version = "0.0.0")) ∧
    ((∃ p, discover disk directory = .error (.problem p) ∧ p.report.category = .missingName) ↔
      ∃ members, Describes disk directory (.object members) ∧
        ∀ name, Json.lookup "name" members ≠ some (.text name)) ∧
    ((∃ p, discover disk directory = .error (.problem p) ∧ p.report.category = .configuration) ↔
      ¬ Withheld disk directory packageFilename ∧ ¬ Overdeep disk directory ∧
        ∀ members, ¬ Describes disk directory (.object members)) ∧
    (∀ e, discover disk directory = .error e →
      (∃ p, e = .problem p ∧ p.IsOfConfiguration) ∨
      (∃ name, Unanswered disk directory name ∧
        e = .disk (.refused .nameTooLong (directory.child name))) ∨
      Overdeep disk directory ∧ e = .tooDeep) ∧
    (∀ name, Unanswered disk directory name →
      discover disk directory = .error (.disk (.refused .nameTooLong (directory.child name)))) ∧
    (Overdeep disk directory → discover disk directory = .error .tooDeep) := by
  refine ⟨?_, discover_nameless, discover_objectless, ?_, ?_, ?_⟩
  · intro package h
    obtain ⟨members, hload, hidentity, -, -⟩ := discover_ok h
    exact ⟨members, load_eq_ok.1 hload, identity_eq_ok.1 hidentity⟩
  · intro e h
    obtain hproblem | ⟨fault, rfl⟩ | hdeep := discover_error h
    · exact .inl hproblem
    · obtain ⟨name, hunanswered, rfl⟩ := discover_withheld.1 h
      exact .inr (.inl ⟨name, hunanswered, rfl⟩)
    · exact .inr (.inr hdeep)
  · intro name hunanswered
    exact discover_withheld.2 ⟨name, hunanswered, rfl⟩
  · exact fun hdeep => discover_eq_error.2 (.inl (load_overdeep hdeep))

/-! ## A lock file that is a link -/

/-- A project with a package file that is in order, beside a lock file that is a link with a name
too long for any file. -/
def linkedLock : Disk where
  entries :=
    [(["p"], .directory),
      (["p", "package.json"], .file .usual (.ofChars ("\x7b\"name\":\"x\"\x7d".toList))),
      (["p", "package-lock.json"], .link (List.replicate 300 (.char 'a')))]

/-- Whether the package file of a directory can be loaded and gives a name. -/
def isNamed [Interpreter] (disk : Disk) (directory : Path) : Bool :=
  match load disk directory with
  | .ok members => (identity members).isOk
  | .error _ => false

/-- What has been checked holds an object with a name. -/
theorem named_of_isNamed [Interpreter] {disk : Disk} {directory : Path}
    (h : isNamed disk directory = true) :
    Named disk directory := by
  unfold isNamed at h
  split at h
  next members hload =>
    rcases hidentity : identity members with p | identified
    · rw [hidentity] at h
      cases h
    · exact named_iff.2 ⟨members, identified, hload, hidentity⟩
  next => cases h

/-- The package has a name, and discovery fails all the same: the disk does not say whether the lock
file is there. -/
theorem discover_unanswered :
    Named linkedLock ⟨.single, ["p"]⟩ ∧
    discover linkedLock ⟨.single, ["p"]⟩ =
      .error (.disk (.refused .nameTooLong ⟨.single, ["p", "package-lock.json"]⟩)) := by
  have hnamed : Named linkedLock ⟨.single, ["p"]⟩ := named_of_isNamed (by decide +kernel)
  have hcompiler : linkedLock.isFile? (Path.child ⟨.single, ["p"]⟩ compilerFilename) = .ok false :=
    by decide +kernel
  have hlock : linkedLock.isFile? ⟨.single, ["p", "package-lock.json"]⟩ =
      .error (.refused .nameTooLong ⟨.single, ["p", "package-lock.json"]⟩) := by decide +kernel
  exact ⟨hnamed, discover_withheld.2 ⟨_, .consolidated hnamed hcompiler hlock, rfl⟩⟩

end Package

end ProviderKit
