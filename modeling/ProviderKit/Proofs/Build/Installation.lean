import ProviderKit.Proofs.Archive.Trees
import ProviderKit.Proofs.Build.Upkeep
import ProviderKit.Proofs.Disk.Agreement
import ProviderKit.Proofs.Install.Confinement
import ProviderKit.Proofs.Release.Grammar

/-!
# Building and installing

Outside its staging directory a build with the installation of its artifact changes the
declarations, the archive and the directory of the release on the host, and nothing else but that
the directories of the last two may come (`install_confined`). The archive that is installed is the
one that was packed: what has come and gone since has left no entry in the place of another
(`Finished.agrees`), so the archive is that of a tree and stays in the directory of its release. All
this is for packages without a slash in their name and version; with slashes both can reach out
(`install_reaches_out`).
-/

namespace ProviderKit

open Install (Renewed)

namespace Build

variable {archive directory : Path} {staging releases : Place} {name : Text}
  {packed built fresh : Disk}

/-! ## The archive that is installed -/

namespace Finished

variable (h : Finished archive staging packed built)
include h

/-- What the build has left was there when the archive was packed. -/
theorem part {p : Place} {entry : Entry} (hp : built.get? p = some entry) :
    packed.get? p = some entry := by
  rcases h.cleaned with rfl | rfl
  · exact hp
  · obtain ⟨parent, draw, rfl⟩ := h.named
    by_cases hbelow : parent ++ [Utf8.canonical (stagingStart ++ draw)] <+: p
    · rw [Disk.get?_eraseTree_of_below hbelow (by simp)] at hp
      cases hp
    · rwa [Disk.get?_eraseTree_of_not_below hbelow] at hp

/-- What has gone since was in the staging directory, and that has gone as a whole. -/
theorem gone {p : Place} (hp : built.get? p = none) (hpacked : packed.get? p ≠ none) :
    staging <+: p ∧ ∀ q, staging <+: q → built.get? q = none := by
  rcases h.cleaned with rfl | rfl
  · exact absurd hp hpacked
  · obtain ⟨parent, draw, rfl⟩ := h.named
    refine ⟨Classical.byContradiction fun hnot => ?_,
      fun q hq => Disk.get?_eraseTree_of_below hq (by simp) packed⟩
    rw [Disk.get?_eraseTree_of_not_below hnot] at hp
    exact hpacked hp

/-- A staging directory that has gone as a whole is not above the releases. -/
theorem not_above_releases (hgone : ∀ q, staging <+: q → built.get? q = none)
    (hrenewed : Renewed directory releases name built fresh) : ¬ staging <+: releases := by
  intro habove
  have hreleases := hrenewed.regular.toWellFormed.parent _ _ _ hrenewed.directory_new
  have hself : ¬ releases ++ [name] <+: releases := fun hprefix => by
    simpa using hprefix.length_le
  rcases hrenewed.outside releases hself with hsame | ⟨-, -, -, root, hroot, hthere⟩
  · rw [hreleases, hgone releases habove] at hsame
    cases hsame
  · rw [hroot, List.prefix_concat_iff] at habove
    rcases habove with heq | hbelow
    · obtain ⟨parent, draw, hnamed⟩ := h.named
      rw [hnamed] at heq
      have hsize := congrArg Utf8.losslessSize (List.cons.inj (List.append_inj' heq rfl).2).1
      simp only [Utf8.losslessSize, Utf8.encodeLossless_canonical, Utf8.encodeLossless_append,
        List.length_append] at hsize
      have hstart : (Utf8.encodeLossless stagingStart).length = 15 := by decide
      have hplugins : (Utf8.encodeLossless pluginsName).length = 7 := by decide
      omega
    · rw [hgone root hbelow] at hthere
      cases hthere

/-- When the directory of a release has been made anew, nothing has become another entry since the
archive was packed. -/
theorem agrees (hrenewed : Renewed directory releases name built fresh) :
    Disk.Agrees fresh packed := by
  intro p entry entry' hfresh hpacked
  -- At and below the directory of the release there is only that directory.
  have hat : releases ++ [name] <+: p → p = releases ++ [name] ∧ entry = .directory := by
    intro hbelow
    refine ⟨Classical.byContradiction fun hne => ?_, hrenewed.bare hbelow hfresh⟩
    rw [hrenewed.empty p hbelow hne] at hfresh
    cases hfresh
  rcases hbuilt : built.get? p with _ | old
  · obtain ⟨hstaging, hgone⟩ := h.gone hbuilt (by simp [hpacked])
    have hnot := h.not_above_releases hgone hrenewed
    by_cases hbelow : releases ++ [name] <+: p
    · obtain ⟨rfl, rfl⟩ := hat hbelow
      rcases List.prefix_concat_iff.1 hstaging with rfl | habove
      · rw [h.directory] at hpacked
        exact Option.some.inj hpacked
      · exact absurd habove hnot
    · rcases hrenewed.outside p hbelow with hsame | ⟨rfl, -⟩
      · rw [hfresh, hbuilt] at hsame
        cases hsame
      · exact absurd hstaging hnot
  · have hold := h.part hbuilt
    rw [hpacked] at hold
    obtain rfl := Option.some.inj hold
    by_cases hbelow : releases ++ [name] <+: p
    · obtain ⟨rfl, rfl⟩ := hat hbelow
      rcases hrenewed.previous with hnone | hdirectory
      · rw [hbuilt] at hnone
        cases hnone
      · rw [hbuilt] at hdirectory
        exact (Option.some.inj hdirectory).symm
    · rcases hrenewed.outside p hbelow with hsame | ⟨-, hnone, -⟩
      · rw [hfresh, hbuilt] at hsame
        exact Option.some.inj hsame
      · rw [hbuilt] at hnone
        cases hnone

end Finished

/-- Installing what a build has packed changes what is under the directory of the release only. -/
theorem installArtifact_finished [Interpreter] (host : Path) {artifact : Artifact} {w : World}
    (h : Finished artifact.archive staging packed w.disk) (hname : .char '/' ∉ artifact.name)
    (hversion : .char '/' ∉ artifact.version) :
    Disk.ChangedUnder (host.child pluginsName)
      (pluginDirectoryName artifact.name artifact.version) w.disk
      ((installArtifact host artifact).perform w).2.disk := by
  refine Install.installArtifact_changes h.regular hname hversion
    fun releases fresh _ _ hrenewed => ?_
  obtain ⟨tree, source, htree, hnames, hread⟩ := h.read
  have hleft := Archive.unpackTree_within htree.toOrderly htree.toWellFormed hnames
    (.start hrenewed.regular hrenewed.apart) (Disk.find_through hrenewed.found)
    (fun x entry => hrenewed.bare (List.prefix_append _ _))
    fun content hcontent => Disk.read_agrees (h.agrees hrenewed) hcontent hread
  exact hleft.outside

/-! ## Outside the staging directory -/

/-- What a build and the installation of what it has packed may change outside the staging
directory: the declarations, the archive, the directory of the release on the host, and the
directories that hold the last two, which may come. -/
inductive MayTouch [Interpreter] (b : Build) (w : World) (q : Place) : Prop
  | declarations (h : w.disk.locate false (b.directory.child declarationFilename) = .ok q)
  | archive {archive : Path} {opened : Disk} {dist : Place}
      (h : b.archiving? w = some (archive, opened))
      (hdist : opened.locate true (b.directory.child distName) = .ok dist)
      (hq : q = dist ++ [Utf8.canonical archive.name] ∨ q = dist ∧ w.disk.get? q = none)
  | release {artifact : Artifact} {built : World} {releases : Place}
      (h : b.run.perform w = (.ok artifact, built))
      (hreleases : built.disk.locate true (b.settings.hostRoot.child pluginsName) = .ok releases)
      (hq :
        releases ++ [Utf8.canonical (pluginDirectoryName artifact.name artifact.version)] <+: q ∨
        q = releases ∧ built.disk.get? q = none)

section Whole

variable {b : Build} {w : World} (hwf : w.disk.WellFormed)
  (hstandard : b.strategies ⊆ InstallStrategy.standard)
include hwf hstandard

/-- The archive is opened when at most a directory has come outside the staging directory. -/
theorem opened_of_archiving [Interpreter] {opened : Disk}
    (hcalls : ∀ place, b.stagingPlace? w = some place → ∀ call ∈ b.callsMade w,
      Confined place call.disk (b.runner call.command call.disk).2)
    (h : b.archiving? w = some (archive, opened)) :
    ∃ package types, Package.discover (b.discovered w) b.directory = .ok package ∧
      archive = b.archivePath package.name ∧ Generated b.directory types w.disk (b.discovered w) ∧
      Disk.Extended (b.discovered w) opened ∧
      ∀ q, b.Outside w q → opened.get? q = (b.discovered w).get? q ∨
        opened.get? q = some .directory := by
  unfold archiving? at h
  split at h
  · cases h
  next package staging w₁ hprepare =>
    obtain ⟨types, place, htypes, hdiscover, hsite, hdisk, hcalls₁, -⟩ := prepare_site hwf hprepare
    obtain ⟨hplace, hstaged⟩ := staged_of_furnish hstandard hprepare hcalls₁ hsite hdisk hcalls
    split at h
    · cases h
    next version w₂ hfurnish =>
      cases h
      rw [hfurnish] at hstaged
      have hgrown := Disk.makeDirectories_grown hstaged.wellFormed true
        (b.archivePath package.name).parent
      refine ⟨package, types, hdiscover, rfl, htypes,
        (hsite.extended hstaged).trans hgrown.extended, fun q hq => ?_⟩
      rcases hgrown.view q with hsame | ⟨-, hcame, -⟩
      · exact .inl (hsame.trans (hstaged.elsewhere q (hq place hplace)))
      · exact .inr hcame

/-- What a build may change is among what may change until the installation is done. -/
theorem mayTouch_of_mayChange [Interpreter]
    (hcalls : ∀ place, b.stagingPlace? w = some place → ∀ call ∈ b.callsMade w,
      Confined place call.disk (b.runner call.command call.disk).2)
    (hname : ∀ package, Package.discover (b.discovered w) b.directory = .ok package →
      .char '/' ∉ package.name)
    {done : List Stage} {final : Disk} {q : Place} (hq : b.Outside w q)
    (h : b.MayChange w done final q) : b.MayTouch w q := by
  rcases h with ⟨-, htypes⟩ | ⟨-, archive, opened, harchiving, hchange⟩
  · exact .declarations htypes
  obtain ⟨package, types, hdiscover, rfl, htypes, hext, houtside⟩ :=
    opened_of_archiving hwf hstandard hcalls harchiving
  have hchild := b.archivePath_child (hname package hdiscover)
  rcases hchange with hlocate | ⟨hfree, -, n, hlocate⟩
  · have hsize : 2 < Utf8.losslessSize (package.name ++ archiveEnd) := by
      have hend : Utf8.losslessSize archiveEnd = 7 := by decide
      rw [Disk.losslessSize_append]
      omega
    rw [hchild] at hlocate
    obtain ⟨dist, hdist, -, rfl⟩ := Disk.locate_of_child (Disk.isPlain_canonical hsize) hlocate
    exact .archive harchiving hdist (.inl (by rw [hchild, Path.name_child]))
  · by_cases htype : q = types
    · exact .declarations (htype ▸ htypes.located)
    have hbase : (b.discovered w).get? q = none := (htypes.view q htype).trans hfree
    rw [hchild, Path.parent_child] at hlocate
    rcases Disk.ancestor_child b.directory distName n with habove | hdist
    · rw [habove] at hlocate
      obtain ⟨root, henters⟩ := enters_of_discover hdiscover
      obtain ⟨p, entry, hfind⟩ := henters.along_taken (Disk.walk_of_locate hlocate).1
      obtain ⟨hold, htaken⟩ := Disk.find_eq_ok.1 hfind
      have hsame := Disk.locate_kept hext hold
      rw [hlocate] at hsame
      rw [← Except.ok.inj hsame, hbase] at htaken
      cases htaken
    · rw [hdist] at hlocate
      have hlink : ∀ target, opened.get? q ≠ some (.link target) := by
        intro target hlink
        rcases houtside q hq with hsame | hcame
        · rw [hlink, hbase] at hsame
          cases hsame
        · rw [hlink] at hcame
          cases hcame
      obtain ⟨hgivable, hwalk⟩ := Disk.walk_of_locate hlocate
      exact .archive harchiving (Disk.locate_of_walk hgivable (Disk.walk_through hlink hwalk))
        (.inr ⟨rfl, hfree⟩)

/-- On a well-formed disk, with tools that stay within the staging directory and leave the disk as a
machine keeps it, and an archive that is opened under the sole name of no link, building a package
and installing it leaves everything outside the staging directory as it was but for what it may
touch, however it ends, if neither the name nor the version of the package has a slash. -/
theorem install_confined [Interpreter]
    (hcalls : ∀ place, b.stagingPlace? w = some place → ∀ call ∈ b.callsMade w,
      Confined place call.disk (b.runner call.command call.disk).2 ∧
        (b.runner call.command call.disk).2.Regular)
    (hsole : ∀ archive opened, b.archiving? w = some (archive, opened) → opened.Sole archive)
    (hpackage : ∀ package, Package.discover (b.discovered w) b.directory = .ok package →
      .char '/' ∉ package.name ∧ .char '/' ∉ package.version)
    {q : Place} (hq : b.Outside w q)
    (hchanged : (b.install.perform w).2.disk.get? q ≠ w.disk.get? q) : b.MayTouch w q := by
  have hconfined : ∀ place, b.stagingPlace? w = some place → ∀ call ∈ b.callsMade w,
      Confined place call.disk (b.runner call.command call.disk).2 :=
    fun place hplace call hcall => (hcalls place hplace call hcall).1
  have hname : ∀ package, Package.discover (b.discovered w) b.directory = .ok package →
      .char '/' ∉ package.name := fun package hdiscover => (hpackage package hdiscover).1
  obtain ⟨segment, hsegment, -⟩ := b.run_log w
  have hbuild := run_view hwf hstandard hconfined hsole hsegment hq
  have htouch : (b.run.perform w).2.disk.get? q ≠ w.disk.get? q → b.MayTouch w q := fun hne =>
    mayTouch_of_mayChange hwf hstandard hconfined hname hq (hbuild.resolve_left hne)
  rcases hrun : b.run.perform w with ⟨failure | artifact, built⟩
  · rw [hrun] at htouch
    rw [Build.install, Run.perform_bind_error _ hrun] at hchanged
    exact htouch hchanged
  rw [hrun] at htouch
  rw [Build.install, Run.perform_bind_ok _ hrun] at hchanged
  by_cases hsame : built.disk.get? q = w.disk.get? q
  · obtain ⟨package, hdiscover, hnamed, hversion, staging, packed, hfinished⟩ :=
      run_finished hwf hstandard hcalls hname hrun
    obtain ⟨hpackageName, hpackageVersion⟩ := hpackage package hdiscover
    have hslashless : .char '/' ∉ artifact.version := by
      rcases hreference : b.settings.releaseReference with _ | reference
      · exact hversion.1 hreference ▸ hpackageVersion
      · exact Release.slashless_version (hversion.2 reference hreference)
    have hinstalled := installArtifact_finished b.settings.hostRoot hfinished
      (hnamed ▸ hpackageName) hslashless q (hsame ▸ hchanged)
    obtain ⟨releases, hreleases, hunder⟩ := hinstalled
    exact .release hrun hreleases (hunder.imp_right fun ⟨hat, hfree, _⟩ => ⟨hat, hfree⟩)
  · exact htouch hsame

end Whole

/-! ## The small project on a host -/

/-- The small project with a package file of the given text, on a host that has a release and
something of its own. -/
def hosted (text : String) : World where
  disk :=
    { entries :=
        [([Text.ofString "t"], .directory),
         ([Text.ofString "p"], .directory),
         ([Text.ofString "p", "schema.json"], .file .usual (.ofChars "\x7b\x7d".toList)),
         (smallPackage, .file .usual (.ofChars text.toList)),
         ([Text.ofString "p", manifestFilename], .file .usual (.ofChars "m".toList)),
         ([Text.ofString "h"], .directory),
         ([Text.ofString "h", pluginsName], .directory),
         ([Text.ofString "h", pluginsName, "provider-x-v1"], .directory),
         ([Text.ofString "h", "own"], .directory),
         ([Text.ofString "h", "own", "f"], .file .usual (.ofChars "o".toList))] }

/-- The small project on a host. -/
def hostedWorld : World := hosted "\x7b\"name\":\"x\"\x7d"

/-- Whether all calls of a build find a disk as a machine keeps it, tidy in the staging directory.
-/
def callsRegular [Interpreter] (b : Build) (w : World) : Bool :=
  b.callsTidy w && (b.callsMade w).all fun call => call.disk.isRegular

/-- Tools that do nothing stay within the staging directory and leave the disk as a machine keeps
it. -/
theorem confined_of_callsRegular [Interpreter] {b : Build} {w : World} (h : b.callsRegular w = true)
    (hidle : ∀ command disk, (b.runner command disk).2 = disk) :
    ∀ place, b.stagingPlace? w = some place → ∀ call ∈ b.callsMade w,
      Confined place call.disk (b.runner call.command call.disk).2 ∧
        (b.runner call.command call.disk).2.Regular := by
  rw [callsRegular, Bool.and_eq_true] at h
  intro place hplace call hcall
  refine ⟨confined_of_callsTidy h.1 hidle place hplace call hcall, ?_⟩
  rw [hidle]
  exact Disk.regular_of_check (List.all_eq_true.1 h.2 call hcall)

/-- Whether the archive of a build is opened under the sole name of no link. -/
def archiveSole [Interpreter] (b : Build) (w : World) : Bool :=
  (b.archiving? w).all fun (archive, opened) => isSole opened archive

/-- The archive of a build can be checked to be opened under the sole name of no link. -/
theorem sole_of_archiveSole [Interpreter] {b : Build} {w : World} (h : b.archiveSole w = true) :
    ∀ archive opened, b.archiving? w = some (archive, opened) → opened.Sole archive := by
  intro archive opened harchiving
  rw [archiveSole, harchiving] at h
  exact sole_of_check h

/-- Whether a place is outside the staging directory of a build, if the build gets one. -/
def isOutside [Interpreter] (b : Build) (w : World) (q : Place) : Bool :=
  (b.stagingPlace? w).all fun place => !place.isPrefixOf q

/-- A place can be checked to be outside the staging directory. -/
theorem outside_of_check [Interpreter] {b : Build} {w : World} {q : Place}
    (h : b.isOutside w q = true) :
    b.Outside w q := by
  intro place hplace hbelow
  rw [isOutside, hplace] at h
  simp [List.isPrefixOf_iff_prefix.2 hbelow] at h

/-- Whether neither the name nor the version of the package of a build has a slash. -/
def isSlashless [Interpreter] (b : Build) (w : World) : Bool :=
  match Package.discover (b.discovered w) b.directory with
  | .ok package => !package.name.contains (.char '/') && !package.version.contains (.char '/')
  | .error _ => true

/-- The place of the package file in the release of the small project. -/
def installedPackage : Place :=
  [Text.ofString "h", pluginsName, "provider-x-v0.0.0", packageFilename]

/-- What has come to the host when the small project has been built and installed is in the
directory of its release. -/
theorem install_confined_small :
    (small.install.perform hostedWorld).1.toOption.isSome = true ∧
    ((small.install.perform hostedWorld).2.disk.get? installedPackage).isSome = true ∧
    small.MayTouch hostedWorld installedPackage := by
  have hchecks : (hostedWorld.disk.isWellFormed && small.callsRegular hostedWorld &&
      small.archiveSole hostedWorld && small.isOutside hostedWorld installedPackage &&
      small.isSlashless hostedWorld && (small.install.perform hostedWorld).1.toOption.isSome &&
      ((small.install.perform hostedWorld).2.disk.get? installedPackage).isSome &&
      (hostedWorld.disk.get? installedPackage).isNone) = true := by
    rewrite [callsRegular, callsTidy, callsMade, archiveSole, archiving?, isOutside, stagingPlace?,
      isSlashless, discovered, install]
    decide +kernel
  simp only [Bool.and_eq_true] at hchecks
  obtain ⟨⟨⟨⟨⟨⟨⟨hwf, hcalls⟩, hsole⟩, houtside⟩, hslashless⟩, hinstalls⟩, hcame⟩, hfree⟩ := hchecks
  refine ⟨hinstalls, hcame, install_confined (Disk.wellFormed_of_check hwf) (fun _ h => h)
    (confined_of_callsRegular hcalls fun _ _ => rfl) (sole_of_archiveSole hsole)
    (fun package hdiscover => ?_) (outside_of_check houtside) fun hsame => ?_⟩
  · rw [isSlashless, hdiscover] at hslashless
    simpa using hslashless
  · rw [hsame, Option.isNone_iff_eq_none.1 hfree] at hcame
    cases hcame

/-! ## Names and versions with slashes -/

/-- The place is that of the declarations, or at or below the directory for archives or that of the
releases on the host, as the disk shows them. -/
def Allowed (b : Build) (disk : Disk) (q : Place) : Prop :=
  disk.locate false (b.directory.child declarationFilename) = .ok q ∨
    ∃ path ∈ [b.directory.child distName, b.settings.hostRoot.child pluginsName],
      ∃ place, disk.locate true path = .ok place ∧ place <+: q

/-- Building and installing succeeds with tools and an archive as they should be, and changes a
place outside the staging directory that is not among those allowed, neither before nor after. -/
structure ReachesOut [Interpreter] (b : Build) (w : World) (q : Place) : Prop where
  regular : w.disk.Regular
  calls : ∀ place, b.stagingPlace? w = some place → ∀ call ∈ b.callsMade w,
    Confined place call.disk (b.runner call.command call.disk).2 ∧
      (b.runner call.command call.disk).2.Regular
  sole : ∀ archive opened, b.archiving? w = some (archive, opened) → opened.Sole archive
  installs : (b.install.perform w).1.toOption.isSome = true
  outside : b.Outside w q
  changed : (b.install.perform w).2.disk.get? q ≠ w.disk.get? q
  before : ¬ b.Allowed w.disk q
  after : ¬ b.Allowed (b.install.perform w).2.disk q

/-- Whether a place is among those allowed. -/
def isAllowed (b : Build) (disk : Disk) (q : Place) : Bool :=
  (disk.locate false (b.directory.child declarationFilename)).toOption == some q ||
    [b.directory.child distName, b.settings.hostRoot.child pluginsName].any fun path =>
      (disk.locate true path).toOption.any fun place => place.isPrefixOf q

/-- A place can be checked not to be among those allowed. -/
theorem not_allowed_of_check {b : Build} {disk : Disk} {q : Place}
    (h : b.isAllowed disk q = false) :
    ¬ b.Allowed disk q := by
  rw [isAllowed, Bool.or_eq_false_iff, List.any_eq_false] at h
  obtain ⟨htypes, hdirectories⟩ := h
  rintro (hlocate | ⟨path, hpath, place, hlocate, hbelow⟩)
  · rw [hlocate] at htypes
    simp [Except.toOption] at htypes
  · have hnot := hdirectories path hpath
    rw [hlocate] at hnot
    simp [Except.toOption, List.isPrefixOf_iff_prefix.2 hbelow] at hnot

/-- Whether building and installing the small project with a package file of the given text makes a
place come or go that is not among those allowed. -/
def reachesOut [Interpreter] (text : String) (q : Place) : Bool :=
  let w := hosted text
  let final := (small.install.perform w).2.disk
  w.disk.isRegular && small.callsRegular w && small.archiveSole w &&
    (small.install.perform w).1.toOption.isSome && small.isOutside w q &&
    (final.get? q).isSome != (w.disk.get? q).isSome && !small.isAllowed w.disk q &&
    !small.isAllowed final q

/-- The small project can be checked to reach out. -/
theorem reachesOut_of_check [Interpreter] {text : String} {q : Place}
    (h : reachesOut text q = true) :
    small.ReachesOut (hosted text) q := by
  simp only [reachesOut, Bool.and_eq_true, Bool.not_eq_true', bne_iff_ne] at h
  obtain ⟨⟨⟨⟨⟨⟨⟨hregular, hcalls⟩, hsole⟩, hinstalls⟩, houtside⟩, hchanged⟩, hbefore⟩, hafter⟩ := h
  exact ⟨Disk.regular_of_check hregular, confined_of_callsRegular hcalls fun _ _ => rfl,
    sole_of_archiveSole hsole, hinstalls, outside_of_check houtside,
    fun hsame => hchanged (congrArg Option.isSome hsame), not_allowed_of_check hbefore,
    not_allowed_of_check hafter⟩

/-- A version with slashes and dots leads to a directory of the host that is no release, which is
removed with what is in it; a name with them leads out of the directory for archives. -/
theorem install_reaches_out :
    small.ReachesOut (hosted "\x7b\"name\":\"x\",\"version\":\"1/../../own\"\x7d")
      [Text.ofString "h", "own", "f"] ∧
    small.ReachesOut (hosted "\x7b\"name\":\"../x\"\x7d") [Text.ofString "p", "x.tar.gz"] :=
  ⟨reachesOut_of_check (by decide +kernel), reachesOut_of_check (by decide +kernel)⟩

end Build

end ProviderKit
