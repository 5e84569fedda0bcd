import ProviderKit.Proofs.Build.Frame
import ProviderKit.Proofs.Disk.Placing
import ProviderKit.Proofs.Json.Written

/-!
# What is put into the staging directory

Two stages put files of the project into the staging directory: the package file, which gets the
version of the release if there is one, and then the manifest and the lock file. Each file is all
that changes when it is put there (`stagePackage_ok`, `stageFiles_ok`), and the package file that
gets a version holds the members of the project's one with that version (`holds_packageText`).
-/

namespace ProviderKit

open Disk (Puts Receives)

/-! ## The package file -/

namespace Package

/-- The members of a package file are those of the document that is read from it. -/
theorem load_eq_ok [Interpreter] {disk : Disk} {directory : Path} {members : List (Text × Json)} :
    load disk directory = .ok members ↔ ∃ content text,
      disk.read (directory.child packageFilename) = .ok content ∧
      Utf8.decode content.data = .ok text ∧
      Json.read text.normalizeNewlines = .ok (.object members) := by
  constructor
  · intro h
    unfold load at h
    obtain ⟨found, hfound, h⟩ := except_bind_eq_ok.1 h
    cases found with
    | false => cases h
    | true =>
      unfold Disk.readText at h
      rcases hread : disk.read (directory.child packageFilename) with fault | content
      · simp only [hread] at h
        cases h
      rcases hdecode : Utf8.decode content.data with fault | text
      · simp only [hread, hdecode] at h
        cases h
      simp only [hread, hdecode] at h
      refine ⟨content, text, rfl, hdecode, ?_⟩
      simp only [Bool.not_true, Bool.false_eq_true, if_false] at h
      unfold ofContent at h
      split at h
      · split at h <;> cases h
      next hjson =>
        cases h
        exact hjson
      · cases h
  · rintro ⟨content, text, hread, hdecode, hjson⟩
    obtain ⟨place, mode, hfind⟩ := Disk.read_eq_ok.1 hread
    have hfile : disk.isFile? (directory.child packageFilename) = .ok true :=
      Disk.isFile?_eq_true.2 ⟨place, mode, content, hfind⟩
    unfold load Disk.readText
    dsimp only
    rw [hfile, hread]
    dsimp only
    rw [hdecode]
    simp only [ofContent, hjson]
    rfl

/-- Members that were loaded make a document that is readable where reading may go a level deeper.
-/
theorem readable_of_load [Interpreter] {disk : Disk} {directory : Path}
    {members : List (Text × Json)} (h : load disk directory = .ok members) :
    (Json.object members).Readable (Interpreter.reading + 1) := by
  obtain ⟨content, text, -, -, hjson⟩ := load_eq_ok.1 h
  exact Json.readable_of_read hjson

/-- The content is that of a package file with the members. It is read as them wherever reading may
go a level deeper than the interpreter's: a number that is too large for its digits is written as a
word, for which reading goes down a level. -/
def Holds [Interpreter] (content : Content) (members : List (Text × Json)) : Prop :=
  ∃ text, Utf8.decode content.data = .ok text ∧
    ∀ room, Interpreter.reading < room →
      Json.readWithin room text.normalizeNewlines = .ok (.object members)

/-- A package file that was loaded holds its members. -/
theorem holds_of_load [Interpreter] {disk : Disk} {directory : Path} {members : List (Text × Json)}
    (h : load disk directory = .ok members) :
    ∃ content, disk.read (directory.child packageFilename) = .ok content ∧
      Holds content members := by
  obtain ⟨content, text, hread, hdecode, hjson⟩ := load_eq_ok.1 h
  exact ⟨content, hread, text, hdecode, fun room hroom =>
    Json.readWithin_mono (Nat.le_of_lt hroom) hjson⟩

/-- Where a package file holds members, these are loaded, or else it has too many levels for that.
-/
theorem load_of_holds [Interpreter] {disk : Disk} {directory : Path} {content : Content}
    {members : List (Text × Json)} (h : Holds content members)
    (hread : disk.read (directory.child packageFilename) = .ok content) :
    load disk directory = .ok members ∨ load disk directory = .error .tooDeep := by
  obtain ⟨text, hdecode, hjson⟩ := h
  obtain heq | ⟨failure, hfails, hcause⟩ :=
    Json.readWithin_shallow (Nat.le_succ Interpreter.reading) text.normalizeNewlines
  · rw [hjson _ (Nat.lt_succ_self _)] at heq
    exact .inl (load_eq_ok.2 ⟨content, text, hread, hdecode, heq⟩)
  · obtain ⟨place, mode, hfind⟩ := Disk.read_eq_ok.1 hread
    have hfile : disk.isFile? (directory.child packageFilename) = .ok true :=
      Disk.isFile?_eq_true.2 ⟨place, mode, content, hfind⟩
    have hfails' : Json.read text.normalizeNewlines = .error failure := hfails
    refine .inr ?_
    unfold load Disk.readText
    dsimp only
    rw [hfile, hread]
    dsimp only
    rw [hdecode]
    simp only [ofContent, hfails', hcause]
    rfl

end Package

namespace Build

/-- The text of a package file is what is written for its members, if these have few levels. -/
theorem packageText_eq_ok [Interpreter] {members : List (Text × Json)} {version text : Text} :
    packageText members version = .ok text ↔
      (Json.object (Json.insertMember "version" (.text version) members)).levels ≤
          Interpreter.writing ∧
        text =
          (Json.object (Json.insertMember "version" (.text version) members)).write ++ "\n" := by
  unfold packageText Json.write?
  by_cases h : (Json.object (Json.insertMember "version" (.text version) members)).levels ≤
      Interpreter.writing
  · simp [h, eq_comm]
  · simp [h]

/-- What is written for members with a version is a package file with these members. -/
theorem holds_packageText [Interpreter] {members : List (Text × Json)} {version text : Text}
    {bytes : Bytes} (hreadable : (Json.object members).Readable (Interpreter.reading + 1))
    (htext : packageText members version = .ok text) (hencode : Utf8.encode? text = some bytes) :
    Package.Holds (.bytes bytes) (Json.insertMember "version" (.text version) members) := by
  obtain ⟨-, rfl⟩ := packageText_eq_ok.1 htext
  have hversion : (Json.text version).Readable Interpreter.reading := trivial
  have hreadable' : (Json.object (Json.insertMember "version" (.text version) members)).Readable
      (Interpreter.reading + 1) :=
    ⟨Json.nodup_keys_insert hreadable.1, Json.readableMembers_insert hversion hreadable.2⟩
  refine ⟨_, Utf8.decode_encode hencode, fun room hroom => ?_⟩
  obtain ⟨text, hdecode, hjson⟩ := Json.decode_write (hreadable'.mono hroom) hencode
  rw [Utf8.decode_encode hencode] at hdecode
  obtain rfl := Except.ok.inj hdecode
  exact hjson

/-- What goes into the staging directory as the package file: the project's one as it is, or if
there is a release what is written for its members with the version of the release. -/
structure PackageContent [Interpreter] (b : Build) (disk : Disk) (content : Content) : Prop where
  same : b.settings.releaseReference = none →
    disk.read (b.directory.child packageFilename) = .ok content
  released : ∀ reference, b.settings.releaseReference = some reference →
    ∃ version members text bytes, Release.version reference = .ok version ∧
      Package.load disk b.directory = .ok members ∧
      packageText members version = .ok text ∧ Utf8.encode? text = some bytes ∧
      content = .bytes bytes

/-! ## The stages -/

/-- The files of a project that may be staged have plain names. -/
theorem isPlain_projectFilename {name : Text} (h : name ∈ projectFilenames) :
    Disk.IsPlain (Utf8.canonical name) := by
  have hsizes : ∀ name ∈ projectFilenames, 2 < Utf8.losslessSize name := by decide
  exact Disk.isPlain_canonical (hsizes name h)

/-- The lock files are among them. -/
theorem lockFilenames_subset : lockFilenames ⊆ projectFilenames := by decide

section Stages

variable {b : Build} {package : Package} {staging : Path} {place : Place} {w w' : World}

/-- A text that is written in the staging directory is put there, in the end with its bytes. -/
theorem puts_of_writeText (h : Receives staging place projectFilenames w.disk) {name : Text}
    (hname : name ∈ projectFilenames) {text : Text} {a : Unit}
    (hrun : (writeText (staging.child name) text).perform w = (.ok a, w')) :
    ∃ bytes, Utf8.encode? text = some bytes ∧
      Puts staging place name (.bytes bytes) w.disk w'.disk := by
  unfold writeText at hrun
  obtain ⟨_, w₁, hfirst, hrun⟩ := Run.perform_bind_eq_ok hrun
  obtain ⟨mid, hempty, rfl⟩ := Run.request_eq_ok hfirst
  have hplain := isPlain_projectFilename hname
  have hputs := h.write hname hplain hempty
  rcases hencode : Utf8.encode? text with _ | bytes
  · rw [hencode] at hrun
    cases hrun
  · rw [hencode] at hrun
    obtain ⟨left, hwrite, rfl⟩ := Run.request_eq_ok hrun
    have hputs' := (h.placed hputs.placed).write hname hplain hwrite
    exact ⟨bytes, rfl, hputs.located, hputs.placed.trans hputs'.placed⟩

/-- The stage of the version puts the package file into the staging directory. -/
theorem stagePackage_ok [Interpreter] (h : Receives staging place projectFilenames w.disk)
    {version : Text} (hrun : (b.stagePackage package staging).perform w = (.ok version, w')) :
    ∃ content, b.PackageContent w.disk content ∧
      Puts staging place packageFilename content w.disk w'.disk := by
  have hname : packageFilename ∈ projectFilenames := by simp [projectFilenames]
  unfold stagePackage at hrun
  rcases hreference : b.settings.releaseReference with _ | reference
  · simp only [hreference] at hrun
    obtain ⟨_, w₁, hcopy, hrun⟩ := Run.perform_bind_eq_ok hrun
    obtain ⟨left, hdisk, rfl⟩ := Run.request_eq_ok hcopy
    obtain ⟨content, hread, hputs⟩ := h.copy hname (isPlain_projectFilename hname) hdisk
    cases hrun
    refine ⟨content, ⟨fun _ => hread, fun reference hsome => ?_⟩, hputs⟩
    rw [hreference] at hsome
    cases hsome
  · simp only [hreference] at hrun
    obtain ⟨version', w₁, hversion, hrun⟩ := Run.perform_bind_eq_ok hrun
    rw [Run.perform_ofExcept] at hversion
    obtain ⟨hresolve, rfl⟩ := Prod.mk.inj hversion
    obtain ⟨members, w₂, hload, hrun⟩ := Run.perform_bind_eq_ok hrun
    rw [Run.perform_look] at hload
    obtain ⟨hmembers, rfl⟩ := Prod.mk.inj hload
    obtain ⟨text, w₂, hgiven, hrun⟩ := Run.perform_bind_eq_ok hrun
    rw [Run.perform_ofExcept] at hgiven
    obtain ⟨htext, rfl⟩ := Prod.mk.inj hgiven
    obtain ⟨_, w₃, hwrite, hrun⟩ := Run.perform_bind_eq_ok hrun
    obtain ⟨bytes, hencode, hputs⟩ := puts_of_writeText h hname hwrite
    cases hrun
    refine ⟨.bytes bytes, ⟨fun hnone => ?_, fun reference' hsome => ?_⟩, hputs⟩
    · rw [hreference] at hnone
      cases hnone
    · rw [hreference] at hsome
      cases hsome
      exact ⟨_, members, text, bytes, orProblem_eq_ok.1 hresolve, hmembers, htext, hencode, rfl⟩

/-- The lock file of a strategy is put into the staging directory, if it has one. -/
inductive PutsLock (directory staging : Path) (place : Place) (disk left : Disk) :
    Option Text → Prop
  /-- The strategy has no lock file, and nothing happens. -/
  | nothing (hsame : left = disk) : PutsLock directory staging place disk left none
  /-- The lock file has the content of the project's one. -/
  | copied {name : Text} {content : Content}
    (hread : disk.read (directory.child name) = .ok content)
    (hputs : Puts staging place name content disk left) :
    PutsLock directory staging place disk left (some name)

/-- The stage of the files puts the manifest into the staging directory and then the lock file. -/
theorem stageFiles_ok (h : Receives staging place projectFilenames w.disk)
    (hstandard : b.strategies = InstallStrategy.standard) {a : Unit}
    (hrun : (b.stageFiles package staging).perform w = (.ok a, w')) :
    ∃ strategy content mid,
      InstallStrategy.select InstallStrategy.standard package.lockConvention = .ok strategy ∧
      w.disk.read (b.directory.child manifestFilename) = .ok content ∧
      Puts staging place manifestFilename content w.disk mid ∧
      PutsLock b.directory staging place mid w'.disk strategy.lockFilename := by
  have hname : manifestFilename ∈ projectFilenames := by simp [projectFilenames]
  have hcopies : ∀ {w}, Receives staging place projectFilenames w.disk →
      (b.stageCopies package staging).perform w = (.ok a, w') →
      ∃ strategy content mid,
        InstallStrategy.select InstallStrategy.standard package.lockConvention = .ok strategy ∧
        w.disk.read (b.directory.child manifestFilename) = .ok content ∧
        Puts staging place manifestFilename content w.disk mid ∧
        PutsLock b.directory staging place mid w'.disk strategy.lockFilename := by
    intro w h hrun
    unfold stageCopies at hrun
    obtain ⟨_, w₁, hmanifest, hrun⟩ := Run.perform_bind_eq_ok hrun
    obtain ⟨mid, hcopy, rfl⟩ := Run.request_eq_ok hmanifest
    obtain ⟨content, hread, hputs⟩ := h.copy hname (isPlain_projectFilename hname) hcopy
    obtain ⟨strategy, w₂, hstrategy, hrun⟩ := Run.perform_bind_eq_ok hrun
    have hlockname : ∀ name, strategy.lockFilename = some name → name ∈ lockFilenames :=
      fun _ => lockFilename_of_standard (hstandard ▸ List.Subset.refl _) hstrategy
    rw [Build.strategy, Run.perform_ofExcept] at hstrategy
    obtain ⟨hselect, rfl⟩ := Prod.mk.inj hstrategy
    refine ⟨strategy, content, mid, ?_, hread, hputs, ?_⟩
    · rw [← hstandard]
      exact orProblem_eq_ok.1 hselect
    rcases hlock : strategy.lockFilename with _ | name
    · rw [hlock] at hrun
      cases hrun
      exact .nothing rfl
    · rw [hlock] at hrun
      have hmem := lockFilenames_subset (hlockname name hlock)
      obtain ⟨left, hcopy, rfl⟩ := Run.request_eq_ok hrun
      obtain ⟨content', hread', hputs'⟩ :=
        (h.placed hputs.placed).copy hmem (isPlain_projectFilename hmem) hcopy
      exact .copied hread' hputs'
  unfold stageFiles at hrun
  obtain ⟨found, w₁, hlook, hrun⟩ := Run.perform_bind_eq_ok hrun
  rw [Run.perform_look] at hlook
  obtain ⟨-, rfl⟩ := Prod.mk.inj hlook
  cases found with
  | false => cases hrun
  | true => exact hcopies h hrun

end Stages

end Build

end ProviderKit
