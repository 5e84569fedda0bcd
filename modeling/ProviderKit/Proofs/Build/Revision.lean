import ProviderKit.Proofs.Build.Upkeep
import ProviderKit.Proofs.Build.Version
import ProviderKit.Proofs.Json.Encodable
import ProviderKit.Proofs.Release.Grammar

/-!
# The package file of a release

For a release the package file of the project is staged with the version of the release, and nothing
else about it changes (`stagePackage_revises`): what is staged is read as the members of the
project's file in their order, with the new version in the place of the old one, or at the end if
there was none. A package file that has been staged this way is staged again with the same bytes.
The project's own file is left alone, unless the path of the staged one leads to it, as a compiler
can make it (`stagePackage_overwrites`).
-/

namespace ProviderKit

open Disk (Written)

/-! ## Members with one value set -/

namespace Json

/-- The second members are the first ones with the value at the key: in the place of the value that
was there, or at the end if there was none. -/
inductive Revised (key : Text) (value : Json) :
    List (Text × Json) → List (Text × Json) → Prop where
  | replaced (before after : List (Text × Json)) (old : Json)
      (hother : ∀ member ∈ before ++ after, member.1 ≠ key) :
      Revised key value (before ++ (key, old) :: after) (before ++ (key, value) :: after)
  | added (members : List (Text × Json)) (hother : ∀ member ∈ members, member.1 ≠ key) :
      Revised key value members (members ++ [(key, value)])

variable {key : Text} {value : Json} {members : List (Text × Json)}

/-- A member in front with another key stays where it is. -/
theorem Revised.cons {revised : List (Text × Json)} (h : Revised key value members revised)
    {first : Text × Json} (hfirst : first.1 ≠ key) :
    Revised key value (first :: members) (first :: revised) := by
  cases h with
  | replaced before after old hother =>
    exact .replaced (first :: before) after old (List.forall_mem_cons.2 ⟨hfirst, hother⟩)
  | added _ hother => exact .added (first :: members) (List.forall_mem_cons.2 ⟨hfirst, hother⟩)

/-- A revision is what setting the member gives. -/
theorem Revised.eq_insertMember {revised : List (Text × Json)}
    (h : Revised key value members revised) : revised = insertMember key value members := by
  cases h with
  | replaced before after old hother =>
    have hbefore : ∀ member ∈ before, member.1 ≠ key := fun member hmember =>
      hother member (List.mem_append_left _ hmember)
    clear hother
    induction before with
    | nil => simp [insertMember]
    | cons first before ih =>
      rw [List.forall_mem_cons] at hbefore
      rw [List.cons_append, List.cons_append, insertMember, if_neg hbefore.1, ih hbefore.2]
  | added _ hother =>
    refine (insertMember_new value fun hmem => ?_).symm
    obtain ⟨member, hmember, heq⟩ := List.mem_map.1 hmem
    exact hother member hmember heq

/-- Setting a member revises members with different keys. -/
theorem revised_insertMember (h : (members.map Prod.fst).Nodup) :
    Revised key value members (insertMember key value members) := by
  induction members with
  | nil => exact .added [] (by simp)
  | cons first rest ih =>
    obtain ⟨k, v⟩ := first
    rw [List.map_cons, List.nodup_cons] at h
    rw [insertMember]
    split
    next hkey =>
      subst hkey
      exact .replaced [] rest v fun member hmember heq =>
        h.1 (List.mem_map.2 ⟨member, hmember, heq⟩)
    next hkey => exact (ih h.2).cons hkey

/-- A member that is set twice to the same value is set as by once. -/
theorem insertMember_insertMember (key : Text) (value : Json) (members : List (Text × Json)) :
    insertMember key value (insertMember key value members) = insertMember key value members := by
  induction members with
  | nil => simp [insertMember]
  | cons first rest ih =>
    obtain ⟨k, v⟩ := first
    by_cases hkey : k = key
    · simp [insertMember, hkey]
    · simp [insertMember, hkey, ih]

/-- Members without lone surrogates stay so when one of their kind is set. -/
theorem wellFormedMembers_insert (hkey : key.isWellFormed = true) (hvalue : value.IsWellFormed)
    (h : WellFormedMembers members) : WellFormedMembers (insertMember key value members) := by
  induction members with
  | nil => exact ⟨hkey, hvalue, trivial⟩
  | cons first rest ih =>
    obtain ⟨k, v⟩ := first
    rw [insertMember]
    split
    · exact ⟨h.1, hvalue, h.2.2⟩
    · exact ⟨h.1, h.2.1, ih h.2.2⟩

end Json

/-- The two paths lead to one file, be it under two of its names. -/
def Disk.OneFile (disk : Disk) (path other : Path) : Prop :=
  ∃ p q, disk.locate true path = .ok p ∧ disk.locate true other = .ok q ∧ p ∈ disk.sharers q

namespace Build

/-! ## Writing the package file -/

/-- The package file of a release can be encoded if no string in the project's one has a lone
surrogate. -/
theorem encode?_packageText [Interpreter] {reference version text : Text}
    (hversion : Release.version reference = .ok version) {members : List (Text × Json)}
    (h : (Json.object members).IsWellFormed) (htext : packageText members version = .ok text) :
    ∃ bytes, Utf8.encode? text = some bytes := by
  obtain ⟨-, rfl⟩ := packageText_eq_ok.1 htext
  exact Json.encode?_write (j := .object (Json.insertMember "version" (.text version) members))
    (Json.wellFormedMembers_insert rfl (Release.isWellFormed_version hversion) h)

/-- What is written for members with a version is loaded as these members, unless a number in them
is written as a word for which there is no room. -/
theorem load_packageText [Interpreter] {members : List (Text × Json)} {version text : Text}
    {bytes : Bytes} (hreadable : (Json.object members).Readable (Interpreter.reading + 1))
    (htext : packageText members version = .ok text) (hencode : Utf8.encode? text = some bytes)
    {disk : Disk} {directory : Path}
    (hread : disk.read (directory.child packageFilename) = .ok (.bytes bytes)) :
    Package.load disk directory = .ok (Json.insertMember "version" (.text version) members) ∨
      (Package.load disk directory = .error .tooDeep ∧
        ¬ (Json.object (Json.insertMember "version" (.text version) members)).Readable
          Interpreter.reading) := by
  by_cases hroom : (Json.object (Json.insertMember "version" (.text version) members)).Readable
      Interpreter.reading
  · obtain ⟨-, rfl⟩ := packageText_eq_ok.1 htext
    obtain ⟨text, hdecode, hjson⟩ := Json.decode_write hroom hencode
    exact .inl (Package.load_eq_ok.2 ⟨_, text, hread, hdecode, hjson⟩)
  · obtain hload | hfails :=
      Package.load_of_holds (holds_packageText hreadable htext hencode) hread
    · exact .inl hload
    · exact .inr ⟨hfails, hroom⟩

/-- A text that can be encoded is written, or there can be no file at the path at all. -/
theorem perform_writeText (path : Path) {text : Text} {bytes : Bytes} {w : World}
    (hwf : w.disk.WellFormed) (hencode : Utf8.encode? text = some bytes) :
    (∃ fault, w.disk.write path (.bytes []) = .error fault ∧
      (writeText path text).perform w = (.error (.disk fault), w)) ∨
    ∃ place left, w.disk.locate true path = .ok place ∧
      Written w.disk place (.bytes bytes) left ∧
      (writeText path text).perform w = (.ok (), { w with disk := left }) := by
  unfold writeText
  rcases hempty : w.disk.write path (.bytes []) with fault | middle
  · exact .inl ⟨fault, rfl, Run.perform_bind_error _ (Run.perform_request_error hempty)⟩
  · obtain ⟨place, left, hlocate, hwrite, hwritten⟩ := Disk.write_again hwf hempty (.bytes bytes)
    refine .inr ⟨place, left, hlocate, hwritten, ?_⟩
    rw [Run.perform_bind_ok _ (Run.perform_request_ok hempty), hencode]
    exact Run.perform_request_ok hwrite

/-- The second disk is the first one with the bytes as the package file in the staging directory.
The project's package file is what it was, unless it is the same file. -/
structure PackageStaged (directory staging : Path) (bytes : Bytes) (disk left : Disk) : Prop where
  read : left.read (staging.child packageFilename) = .ok (.bytes bytes)
  project : disk.OneFile (directory.child packageFilename) (staging.child packageFilename) ∨
    left.find true (directory.child packageFilename) =
      disk.find true (directory.child packageFilename)
  elsewhere : ∃ place, disk.locate true (staging.child packageFilename) = .ok place ∧
    Written disk place (.bytes bytes) left

/-- The stage of the version gives the version and stages the bytes, or else no file can be at the
path of the staged package file, and then nothing has changed. -/
def StagesAs [Interpreter] (b : Build) (package : Package) (staging : Path) (w : World)
    (version : Text) (bytes : Bytes) : Prop :=
  (∃ fault, w.disk.write (staging.child packageFilename) (.bytes []) = .error fault ∧
    (b.stagePackage package staging).perform w = (.error (.disk fault), w)) ∨
  ∃ left, (b.stagePackage package staging).perform w = (.ok version, left) ∧
    PackageStaged b.directory staging bytes w.disk left.disk

variable {b : Build} {reference version : Text}

/-- For a release the package file is staged with what is written for its members. -/
theorem stagesAs_of_load [Interpreter] (hreference : b.settings.releaseReference = some reference)
    (hversion : Release.version reference = .ok version) (package : Package) (staging : Path)
    {w : World} (hwf : w.disk.WellFormed) {members : List (Text × Json)}
    (hload : Package.load w.disk b.directory = .ok members) {text : Text} {bytes : Bytes}
    (htext : packageText members version = .ok text) (hencode : Utf8.encode? text = some bytes) :
    b.StagesAs package staging w version bytes := by
  have hresolve : (Run.ofExcept (orProblem (Release.version reference))).perform w =
      (.ok version, w) := by
    rw [Run.perform_ofExcept, hversion]
    rfl
  have hlook : (Run.look (Package.load · b.directory)).perform w = (.ok members, w) := by
    rw [Run.perform_look, hload]
  have hgive : (Run.ofExcept (packageText members version)).perform w = (.ok text, w) := by
    rw [Run.perform_ofExcept, htext]
  unfold StagesAs stagePackage
  simp only [hreference]
  rw [Run.perform_bind_ok _ hresolve, Run.perform_bind_ok _ hlook, Run.perform_bind_ok _ hgive]
  rcases perform_writeText (staging.child packageFilename) hwf hencode with
    ⟨fault, hfault, hwrite⟩ | ⟨place, left, hlocate, hwritten, hwrite⟩
  · exact .inl ⟨fault, hfault, Run.perform_bind_error _ hwrite⟩
  · rw [Run.perform_bind_ok _ hwrite, Run.perform_bind_ok _ (Run.perform_say _ _)]
    refine .inr ⟨_, rfl, hwritten.read hwf hlocate, ?_, place, hlocate, hwritten⟩
    -- The project's file has been read, so its path leads to it.
    obtain ⟨content, -, hread, -, -⟩ := Package.load_eq_ok.1 hload
    obtain ⟨own, mode, hown⟩ := Disk.read_eq_ok.1 hread
    by_cases hsame : own ∈ w.disk.sharers place
    · exact .inl ⟨own, place, (Disk.find_eq_ok.1 hown).1, hlocate, hsame⟩
    · exact .inr ((hwritten.find hwf hown hsame).trans hown.symm)

/-- For a release a package file that has too many levels is not staged. -/
theorem stagePackage_tooDeep [Interpreter]
    (hreference : b.settings.releaseReference = some reference)
    (hversion : Release.version reference = .ok version) (package : Package) (staging : Path)
    {w : World} {members : List (Text × Json)}
    (hload : Package.load w.disk b.directory = .ok members)
    (hdeep : packageText members version = .error .tooDeep) :
    (b.stagePackage package staging).perform w = (.error .tooDeep, w) := by
  have hresolve : (Run.ofExcept (orProblem (Release.version reference))).perform w =
      (.ok version, w) := by
    rw [Run.perform_ofExcept, hversion]
    rfl
  have hlook : (Run.look (Package.load · b.directory)).perform w = (.ok members, w) := by
    rw [Run.perform_look, hload]
  have hgive : (Run.ofExcept (packageText members version)).perform w = (.error .tooDeep, w) := by
    rw [Run.perform_ofExcept, hdeep]
  unfold stagePackage
  simp only [hreference]
  rw [Run.perform_bind_ok _ hresolve, Run.perform_bind_ok _ hlook]
  exact Run.perform_bind_error _ hgive

/-- An artifact of a release has the version of the release. -/
theorem run_version [Interpreter] (hreference : b.settings.releaseReference = some reference)
    (hversion : Release.version reference = .ok version) {w final : World} {artifact : Artifact}
    (h : b.run.perform w = (.ok artifact, final)) : artifact.version = version := by
  rcases hprepare : b.prepare.perform w with ⟨e | ⟨package, staging⟩, w₁⟩
  · rw [perform_run_of_error hprepare] at h
    cases h
  obtain ⟨-, houtcome, -⟩ := run_eq_ok hprepare h
  obtain ⟨found, w₂, -, hfurnish, -, rfl, -⟩ := assemble_ok (Prod.ext houtcome rfl)
  have hfound := (furnish_last hfurnish).1.2 reference hreference
  rw [hversion] at hfound
  exact (Except.ok.inj hfound).symm

/-- A build for a release gives the version of the release. The members of the package file that is
staged are those of the project's one with the version in the place of the old one, or at the end.
They are not staged if they have more levels than can be written. Else the package file is staged,
if there can be a file at its path, with bytes that are read as these members; only where a number
in them is written as a word and there is no room for it are they not loaded again. Where they are,
the package file is staged with the same bytes again. -/
theorem stagePackage_revises [Interpreter]
    (hreference : b.settings.releaseReference = some reference)
    (hversion : Release.version reference = .ok version) :
    (∀ w artifact final, b.run.perform w = (.ok artifact, final) → artifact.version = version) ∧
    ∀ package staging w members, w.disk.WellFormed →
      Package.load w.disk b.directory = .ok members → (Json.object members).IsWellFormed →
      ∃ revised, Json.Revised "version" (.text version) members revised ∧
        (Interpreter.writing < (Json.object revised).levels →
          (b.stagePackage package staging).perform w = (.error .tooDeep, w)) ∧
        ((Json.object revised).levels ≤ Interpreter.writing →
          ∃ bytes, b.StagesAs package staging w version bytes ∧
            Package.Holds (.bytes bytes) revised ∧
            (∀ disk directory,
              disk.read (directory.child packageFilename) = .ok (.bytes bytes) →
              Package.load disk directory = .ok revised ∨
                (Package.load disk directory = .error .tooDeep ∧
                  ¬ (Json.object revised).Readable Interpreter.reading)) ∧
            ∀ again : Build, again.settings.releaseReference = some reference →
              ∀ package staging w, w.disk.WellFormed →
                w.disk.read (again.directory.child packageFilename) = .ok (.bytes bytes) →
                Package.load w.disk again.directory = .ok revised →
                again.StagesAs package staging w version bytes) := by
  refine ⟨fun w artifact final hrun => run_version hreference hversion hrun,
    fun package staging w members hwf hload hclean => ?_⟩
  have hreadable := Package.readable_of_load hload
  refine ⟨_, Json.revised_insertMember hreadable.1, fun hdeep => ?_, fun hlevels => ?_⟩
  · refine stagePackage_tooDeep hreference hversion package staging hload ?_
    rw [packageText, Json.write?, if_neg (Nat.not_le.2 hdeep)]
  have htext := packageText_eq_ok.2 ⟨hlevels, rfl⟩
  obtain ⟨bytes, hencode⟩ := encode?_packageText hversion hclean htext
  refine ⟨bytes, stagesAs_of_load hreference hversion package staging hwf hload htext hencode,
    holds_packageText hreadable htext hencode,
    fun disk directory => load_packageText hreadable htext hencode,
    fun again hagain package staging w hwf _ hloaded => ?_⟩
  -- What is written for the members is written for them with the version set, too.
  have hsame : packageText (Json.insertMember "version" (.text version) members) version =
      packageText members version := by
    rw [packageText, Json.insertMember_insertMember, packageText]
  exact stagesAs_of_load hagain hversion package staging hwf hloaded (hsame.trans htext) hencode

/-! ## The small project -/

/-- The small project with a package file that gives its version twice, before a list. -/
def versionedWorld : World where
  disk :=
    { entries :=
        [([Text.ofString "t"], .directory),
         ([Text.ofString "p"], .directory),
         ([Text.ofString "p", "schema.json"], .file .usual (.ofChars "\x7b\x7d".toList)),
         (smallPackage, .file .usual (.ofChars
           "\x7b\"version\":\"0\",\"files\":[],\"version\":1,\"name\":\"x\"\x7d".toList)),
         ([Text.ofString "p", manifestFilename], .file .usual (.ofChars "m".toList))] }

/-- Its release has the version of the release, and a package file that says so in the first place,
where the version was. -/
theorem stagePackage_revises_small :
    (∃ artifact final, releasing.run.perform versionedWorld = (.ok artifact, final) ∧
      artifact.version = "1.2.3") ∧
    ∃ left, (releasing.stagePackage ⟨"x", "0.0.0", false, .none⟩ ⟨.single, ["t"]⟩).perform
        versionedWorld = (.ok "1.2.3", left) ∧
      Package.load left.disk ⟨.single, ["t"]⟩ =
        .ok [("version", .text "1.2.3"), ("files", .array []), ("name", .text "x")] := by
  have hload : Package.load versionedWorld.disk releasing.directory =
      .ok [("version", .int 1), ("files", .array []), ("name", .text "x")] := by cbv
  have hchecks : (versionedWorld.disk.isWellFormed &&
      (versionedWorld.disk.write ⟨.single, ["t", packageFilename]⟩ (.bytes [])).toOption.isSome &&
      (releasing.run.perform versionedWorld).1.toOption.isSome) = true := by
    decide +kernel
  simp only [Bool.and_eq_true] at hchecks
  obtain ⟨⟨hwf, hwritable⟩, hok⟩ := hchecks
  obtain ⟨hversion, hstages⟩ :=
    stagePackage_revises (b := releasing) rfl (show Release.version "v1.2.3" = .ok "1.2.3" from rfl)
  constructor
  · rcases hrun : releasing.run.perform versionedWorld with ⟨e | artifact, final⟩
    · rw [hrun] at hok
      cases hok
    · exact ⟨artifact, final, rfl, hversion _ _ _ hrun⟩
  · obtain ⟨revised, hrevised, -, hwritable'⟩ :=
      hstages ⟨"x", "0.0.0", false, .none⟩ ⟨.single, ["t"]⟩ versionedWorld _
        (Disk.wellFormed_of_check hwf) hload ⟨rfl, trivial, rfl, trivial, rfl, rfl, trivial⟩
    obtain rfl := hrevised.eq_insertMember
    have hreadable : (Json.object (Json.insertMember "version" (.text "1.2.3")
        [("version", .int 1), ("files", .array []), ("name", .text "x")])).Readable
        Interpreter.reading :=
      ⟨by decide, trivial, trivial, trivial, trivial⟩
    obtain ⟨bytes, hstaged | ⟨left, hperform, hstaged⟩, -, hrevision, -⟩ :=
      hwritable' (by decide +kernel)
    · obtain ⟨fault, hfault, -⟩ := hstaged
      rw [show (⟨.single, ["t"]⟩ : Path).child packageFilename =
        ⟨.single, ["t", packageFilename]⟩ from rfl] at hfault
      rw [hfault] at hwritable
      cases hwritable
    · refine ⟨left, hperform, ?_⟩
      rw [(hrevision _ _ hstaged.read).resolve_right fun hnot => hnot.2 hreadable]
      rfl

/-- The release of the small project with a compiler that leaves a link to the project's package
file in the staging directory. -/
def linkingBack : Build :=
  { releasing with
    runner := fun command disk =>
      (.ok ⟨0, []⟩, if command.args.contains "tsc" then
        disk.put smallStaged (.link "/p/package.json")
      else disk) }

/-- The project's own package file can be the one that is staged. Then it does not stay what it
was. -/
theorem stagePackage_overwrites :
    linkingBack.settings.releaseReference = some "v1.2.3" ∧
    Release.version "v1.2.3" = .ok "1.2.3" ∧
    Package.load compiledWorld.disk linkingBack.directory = .ok [("name", .text "x")] ∧
    ¬ linkingBack.KeepsPackage compiledWorld := by
  refine ⟨rfl, rfl, by cbv, not_keepsPackage ?_⟩
  rewrite [overwritten]
  decide +kernel

end Build

end ProviderKit
