import ProviderKit.Proofs.Archive.Packing
import ProviderKit.Proofs.Build.Handover

/-!
# The version of what is packed

An artifact names a version, and its archive holds a package file. When a build returns, the file
says the same version, with one exception: without a release, a package file that gives no version
is packed as it is, while the artifact has the version of a package that does not say
(`run_packs_version`, `run_packs_no_version`). The tools may do what they like, as long as they
leave the package files alone and the archive is not made in the staging directory.
-/

namespace ProviderKit

open Disk (Enters Extended Receives)

/-- A member that has been set is found. -/
theorem Json.lookup_insertMember (key : Text) (value : Json) (members : List (Text × Json)) :
    lookup key (insertMember key value members) = some value := by
  induction members with
  | nil => simp [insertMember, lookup]
  | cons head rest ih =>
    obtain ⟨k, v⟩ := head
    by_cases hk : k = key
    · simp [insertMember, lookup, hk]
    · simp [insertMember, lookup, hk, ih]

/-- The path leads elsewhere, on a way that does not go through the directory at the place, and to
nothing that has a second name there. -/
def Disk.Avoids (disk : Disk) (path : Path) (place : Place) : Prop :=
  ∀ target, disk.locate true path = .ok target →
    (disk.eraseTree place).locate true path = .ok target ∧
      ∀ p ∈ disk.sharers target, ¬ place <+: p

/-- Whether a path leads elsewhere. -/
def Disk.isAvoiding (disk : Disk) (path : Path) (place : Place) : Bool :=
  match disk.locate true path with
  | .ok target =>
    ((disk.eraseTree place).locate true path).toOption == some target &&
      (disk.sharers target).all (!place.isPrefixOf ·)
  | .error _ => true

/-- A path that passes the check leads elsewhere. -/
theorem Disk.avoids_of_check {disk : Disk} {path : Path} {place : Place}
    (h : disk.isAvoiding path place = true) : disk.Avoids path place := by
  intro target hlocate
  rw [isAvoiding, hlocate] at h
  simp only [Bool.and_eq_true, beq_iff_eq, List.all_eq_true, Bool.not_eq_true'] at h
  obtain ⟨hsame, hoff⟩ := h
  refine ⟨?_, fun p hp hbelow => ?_⟩
  · rcases hlocate' : (disk.eraseTree place).locate true path with fault | target'
    · rw [hlocate'] at hsame
      cases hsame
    · rw [hlocate'] at hsame
      cases hsame
      rfl
  · have hnot := hoff p hp
    rw [List.isPrefixOf_iff_prefix.2 hbelow] at hnot
    cases hnot

namespace Build

/-! ## The version that is returned -/

/-- What a build may say of the version of a package with the members: that they give it, or if
there is no release and they do not say, the version of a package that does not. -/
def Versioned (b : Build) (members : List (Text × Json)) (version : Text) : Prop :=
  Json.lookup "version" members = some (.text version) ∨
    b.settings.releaseReference = none ∧
      (∀ t, Json.lookup "version" members ≠ some (.text t)) ∧ version = Package.defaultVersion

/-- The version of a package is that of its members, if these say. -/
theorem versioned_of_identity {b : Build} (hnone : b.settings.releaseReference = none)
    {members : List (Text × Json)} {name version : Text}
    (h : Package.identity members = .ok (name, version)) : b.Versioned members version := by
  unfold Package.identity at h
  split at h
  next hname =>
    split at h
    next found hfound =>
      cases h
      exact .inl hfound
    next hother =>
      cases h
      exact .inr ⟨hnone, fun t ht => hother t ht, rfl⟩
  next => cases h

/-- The stage of the version gives that of the package, or that of the release. -/
theorem stagePackage_version [Interpreter] {b : Build} {package : Package} {staging : Path}
    {version : Text} {w w' : World}
    (h : (b.stagePackage package staging).perform w = (.ok version, w')) :
    (b.settings.releaseReference = none → version = package.version) ∧
      ∀ reference, b.settings.releaseReference = some reference →
        Release.version reference = .ok version := by
  unfold stagePackage at h
  rcases hreference : b.settings.releaseReference with _ | reference
  · simp only [hreference] at h
    obtain ⟨_, w₁, -, h⟩ := Run.perform_bind_eq_ok h
    cases h
    exact ⟨fun _ => rfl, by simp⟩
  · simp only [hreference] at h
    obtain ⟨version', w₁, hversion, h⟩ := Run.perform_bind_eq_ok h
    obtain ⟨_, w₂, -, h⟩ := Run.perform_bind_eq_ok h
    obtain ⟨_, w₃, -, h⟩ := Run.perform_bind_eq_ok h
    obtain ⟨_, w₄, -, h⟩ := Run.perform_bind_eq_ok h
    cases h
    rw [Run.perform_ofExcept] at hversion
    refine ⟨by simp, fun other hother => ?_⟩
    cases hother
    exact orProblem_eq_ok.1 (Prod.mk.inj hversion).1

/-- What has been furnished: everything that belongs into the staging directory was put there on top
of what the compiler had left, the package manager was called last, and the version is that of the
package or of the release. -/
structure Furnished [Interpreter] (b : Build) (package : Package) (staging : Path) (place : Place)
    (version : Text) (w left : World) : Prop where
  version : (b.settings.releaseReference = none → version = package.version) ∧
    ∀ reference, b.settings.releaseReference = some reference →
      Release.version reference = .ok version
  filled : ∃ strategy last,
    InstallStrategy.select InstallStrategy.standard package.lockConvention = .ok strategy ∧
    b.Filled staging place strategy (b.compiled package staging w.disk) last ∧
    left.calls = w.calls ++ b.compilerCalls package staging w.disk ++
      [⟨installer staging strategy, last⟩] ∧
    left.disk = (b.runner (installer staging strategy) last).2

/-- Behind the compiler, a staging directory is furnished when the stages are done. -/
theorem rest_ok [Interpreter] {b : Build} {package : Package} {staging : Path} {place : Place}
    {version : Text} {w w' : World} (hstandard : b.strategies = InstallStrategy.standard)
    (hreceives : Receives staging place projectFilenames w.disk)
    (h : Run.perform (do
      let version ← stage .resolveVersion (b.stagePackage package staging)
      stage .stageFiles (b.stageFiles package staging)
      stage .installDependencies (b.installDependencies package staging)
      pure version) w = (.ok version, w')) :
    ((b.settings.releaseReference = none → version = package.version) ∧
      ∀ reference, b.settings.releaseReference = some reference →
        Release.version reference = .ok version) ∧
    ∃ strategy last,
      InstallStrategy.select InstallStrategy.standard package.lockConvention = .ok strategy ∧
      b.Filled staging place strategy w.disk last ∧
      w'.calls = w.calls ++ [⟨installer staging strategy, last⟩] ∧
      w'.disk = (b.runner (installer staging strategy) last).2 := by
  have hunaffected : ∀ w s, Run.Same World.calls w (World.recorded w s) := fun _ _ => rfl
  obtain ⟨_, w₁, hpackage, h⟩ := Run.perform_bind_eq_ok h
  obtain ⟨_, w₂, hfiles, h⟩ := Run.perform_bind_eq_ok h
  obtain ⟨_, w₃, hinstall, h⟩ := Run.perform_bind_eq_ok h
  cases h
  have hcalls₁ := stage_relates sameCalls_unaffected hunaffected .resolveVersion
    (stagePackage_relates sameCalls_unaffected b package staging) w
  rw [hpackage] at hcalls₁
  have hcalls₂ := stage_relates sameCalls_unaffected hunaffected .stageFiles
    (stageFiles_relates sameCalls_unaffected b package staging) w₁
  rw [hfiles] at hcalls₂
  obtain ⟨v, hbody, rfl⟩ := stage_ok hpackage
  obtain ⟨content, hcontent, hputs⟩ :=
    stagePackage_ok (w := w.announced .resolveVersion) hreceives hbody
  obtain ⟨v', hbody', rfl⟩ := stage_ok hfiles
  obtain ⟨strategy, manifest, second, hselect, hread, hputs', hlock⟩ :=
    stageFiles_ok (w := (v.recorded .resolveVersion).announced .stageFiles)
      (hreceives.placed hputs.placed) hstandard hbody'
  obtain ⟨hcalls, hdisk⟩ :=
    installStage_left (hstandard.symm ▸ hselect) staging (v'.recorded .stageFiles)
  rw [hinstall] at hcalls hdisk
  refine ⟨stagePackage_version hbody, strategy, v'.disk, hselect,
    .intro hcontent hputs hread hputs' hlock, ?_, hdisk⟩
  have hbefore : (v'.recorded .stageFiles).calls = w.calls := hcalls₂.trans hcalls₁
  rw [hbefore] at hcalls
  exact hcalls

/-- A staging directory is furnished when all stages up to the installation are done. -/
theorem furnish_ok [Interpreter] {b : Build} {package : Package} {staging : Path} {place : Place}
    {version : Text} {w w' : World} (hstandard : b.strategies = InstallStrategy.standard)
    (hreceives : Receives staging place projectFilenames (b.compiled package staging w.disk))
    (h : (b.furnish package staging).perform w = (.ok version, w')) :
    b.Furnished package staging place version w w' := by
  unfold furnish at h
  rcases hcompiled : package.hasCompiledSource with _ | _
  · rw [hcompiled, if_neg Bool.false_ne_true] at h
    simp only [compiled, hcompiled, Bool.false_eq_true, if_false] at hreceives
    obtain ⟨hversion, hfilled⟩ := rest_ok hstandard hreceives h
    refine ⟨hversion, ?_⟩
    simpa only [compiled, compilerCalls, hcompiled, Bool.false_eq_true, if_false,
      List.append_nil] using hfilled
  · rw [hcompiled, if_pos rfl] at h
    obtain ⟨_, w₁, hcompile, h⟩ := Run.perform_bind_eq_ok h
    obtain ⟨hcalls, hdisk⟩ := compileStage_left b package staging w
    rw [hcompile] at hcalls hdisk
    dsimp only at hcalls hdisk
    simp only [compiled, hcompiled, if_true] at hreceives
    rw [← hdisk] at hreceives
    obtain ⟨hversion, hfilled⟩ := rest_ok hstandard hreceives h
    refine ⟨hversion, ?_⟩
    simpa only [compiled, compilerCalls, hcompiled, if_true, ← hdisk, ← hcalls] using hfilled

/-- The package file that is handed over says the version that is returned. -/
theorem versioned_of_handedOver [Interpreter] {b : Build} {staging : Path} {place : Place}
    {strategy : InstallStrategy} {discovered compiled : Disk} {call : Call} {package : Package}
    {version : Text} (hdiscover : Package.discover discovered b.directory = .ok package)
    (hversion : (b.settings.releaseReference = none → version = package.version) ∧
      ∀ reference, b.settings.releaseReference = some reference →
        Release.version reference = .ok version)
    (h : b.HandedOver staging place strategy discovered compiled call) :
    ∃ content members, call.disk.read (staging.child packageFilename) = .ok content ∧
      Package.Holds content members ∧ b.Versioned members version := by
  rcases hreference : b.settings.releaseReference with _ | reference
  · obtain ⟨members, hload, hidentity, -⟩ := Package.discover_ok hdiscover
    obtain ⟨content, hread, hholds⟩ := Package.holds_of_load hload
    have hname : packageFilename ∈ projectFilenames := by simp [projectFilenames]
    have hproject := h.project packageFilename hname content hread
    obtain ⟨same, hsame, hstaged⟩ := h.package hreference
    rw [hproject] at hsame
    obtain rfl := Except.ok.inj hsame
    refine ⟨content, members, hstaged, hholds, ?_⟩
    rw [hversion.1 hreference]
    exact versioned_of_identity hreference hidentity
  · obtain ⟨version', members, hresolve, -, content, hread, hholds⟩ :=
      h.released reference hreference
    rw [hversion.2 reference hreference] at hresolve
    obtain rfl := Except.ok.inj hresolve
    exact ⟨content, _, hread, hholds, .inl (Json.lookup_insertMember _ _ _)⟩

/-! ## What is packed -/

/-- What a package manager may do that is called on the first disk and leaves the second one:
anything, as long as the path of the staging directory still leads into it, and the package file
there is what it was, under no other name. -/
structure KeepsPackageFile (staging : Path) (place : Place) (before after : Disk) : Prop where
  enters : Enters after staging place
  same : after.get? (place ++ [Utf8.canonical packageFilename]) =
    before.get? (place ++ [Utf8.canonical packageFilename])
  single : after.sharers (place ++ [Utf8.canonical packageFilename]) =
    [place ++ [Utf8.canonical packageFilename]]
  sound : after.Sound

/-- The archive holds a package file with the members. -/
def Packs [Interpreter] (disk : Disk) (archive : Path) (members : List (Text × Json)) : Prop :=
  ∃ packed mode content, disk.read archive = .ok (.archive packed) ∧
    .file packageFilename mode content ∈ packed ∧ Package.Holds content members

/-- Packing puts the package file of the staging directory into the archive. -/
theorem packs_of_pack [Interpreter] {staging archive : Path} {place : Place} {w packed : World}
    (hsound : w.disk.Sound) (henters : Enters w.disk staging place) {mode : Mode}
    {content : Content}
    (hfile : w.disk.get? (place ++ [Utf8.canonical packageFilename]) =
      some (.file mode content))
    (hsingle : w.disk.sharers (place ++ [Utf8.canonical packageFilename]) =
      [place ++ [Utf8.canonical packageFilename]])
    (hclear : (w.disk.makeDirectories true archive.parent).2.Avoids archive place)
    (hpack : (Archive.pack staging archive).perform w = (.ok (), packed)) :
    Enters packed.disk staging place ∧
      Extended (w.disk.makeDirectories true archive.parent).2 packed.disk ∧
      ∃ target members written,
        (w.disk.makeDirectories true archive.parent).2.locate true archive = .ok target ∧
        packed.disk.get? target = some (.file written (.archive members)) ∧
        .file packageFilename mode content ∈ members := by
  have hgrown := Disk.makeDirectories_grown hsound.toWellFormed true archive.parent
  obtain ⟨place', target, hpacked⟩ := Archive.packed_of_pack hsound hpack
  generalize (w.disk.makeDirectories true archive.parent).2 = opened at *
  have hextended := hpacked.extended hgrown.wellFormed
  have henters' := henters.extended (hgrown.extended.trans hextended)
  obtain rfl : place' = place := by
    have harrives := (Disk.walk_of_locate (Disk.find_eq_ok.1 hpacked.listed).1).2
    rw [henters'.arrives] at harrives
    exact (Except.ok.inj harrives).symm
  obtain ⟨-, hoff⟩ := hclear target hpacked.located
  -- The archive is not in the tree, so the package file is packed as it was before.
  obtain ⟨hview, hsharers⟩ := hpacked.view
  have hopened : opened.get? (place' ++ [Utf8.canonical packageFilename]) =
      some (.file mode content) := by
    rcases hgrown.view (place' ++ [Utf8.canonical packageFilename]) with hsame | ⟨hfree, -⟩
    · rw [hsame, hfile]
    · rw [hfile] at hfree
      cases hfree
  have hleft : packed.disk.get? (place' ++ [Utf8.canonical packageFilename]) =
      some (.file mode content) := by
    rw [hview _ fun hmem => hoff _ hmem (List.prefix_append _ _), hopened]
  obtain ⟨members, hread, hmember⟩ := hpacked.exists_member
    (fun p hp => hoff p (hsharers target ▸ hp)) hgrown.wellFormed (List.cons_ne_nil _ _) hleft
    (fun y hy => by
      rw [hsharers, hgrown.sharers, hsingle, List.mem_singleton] at hy
      exact List.append_cancel_left hy)
  have hstored : Archive.stored (Archive.memberOf [Utf8.canonical packageFilename]
      (.file mode content)) = .file packageFilename mode content := by
    have hname : Archive.storedFileName (Text.join "/" [Utf8.canonical packageFilename]) =
        packageFilename := by decide
    rw [Archive.memberOf, Archive.stored, hname]
  obtain ⟨q, written, hfind⟩ := Disk.read_eq_ok.1 hread
  obtain ⟨hlocate, hshown⟩ := Disk.find_eq_ok.1 hfind
  rw [hpacked.locate hgrown.wellFormed] at hlocate
  obtain rfl := Except.ok.inj hlocate
  exact ⟨henters', hextended, target, members, written, hpacked.located, hshown,
    hstored ▸ hmember⟩

/-- What is seen on a disk with a tree erased is seen on every disk that goes on from it outside
that tree. -/
theorem extended_of_elsewhere {opened left final : Disk} {place : Place} (hplace : place ≠ [])
    (hextended : Extended opened left)
    (helsewhere : ∀ p, ¬ place <+: p → final.get? p = left.get? p) :
    Extended (opened.eraseTree place) final := by
  intro p entry hp
  by_cases hbelow : place <+: p
  · rw [Disk.get?_eraseTree_of_below hbelow hplace] at hp
    cases hp
  · rw [Disk.get?_eraseTree_of_not_below hbelow] at hp
    obtain ⟨entry', hentry', hseen⟩ := hextended p entry hp
    exact ⟨entry', by rw [helsewhere p hbelow, hentry'], hseen⟩

/-- A file is read where its path leads on a disk that this one goes on from. -/
theorem read_of_extended {opened final : Disk} {path : Path} {target : Place}
    (hlocate : opened.locate true path = .ok target) (hextended : Extended opened final)
    {mode : Mode} {content : Content}
    (hfinal : final.get? target = some (.file mode content)) :
    final.read path = .ok content := by
  refine Disk.read_eq_ok.2 ⟨target, mode, Disk.find_eq_ok.2 ⟨?_, hfinal⟩⟩
  refine Disk.locate_of_extended hextended ?_ hlocate
  rw [hfinal]
  rintro - _ ⟨⟩

/-- An archive that avoids a directory stays what it is when only what is in the directory
changes. -/
theorem read_of_elsewhere {opened left final : Disk} {archive : Path} {place target : Place}
    (hplace : place ≠ []) (hclear : opened.Avoids archive place)
    (hlocated : opened.locate true archive = .ok target) (hextended : Extended opened left)
    {mode : Mode} {content : Content}
    (hshown : left.get? target = some (.file mode content))
    (helsewhere : ∀ p, ¬ place <+: p → final.get? p = left.get? p) :
    final.read archive = .ok content := by
  obtain ⟨hlocate, hoff⟩ := hclear target hlocated
  have hfinal : final.get? target = some (.file mode content) := by
    rw [helsewhere target (hoff target (Disk.mem_sharers_self _ _)), hshown]
  exact read_of_extended hlocate (extended_of_elsewhere hplace hextended helsewhere) hfinal

/-- Cleaning up changes nothing outside the staging directory. -/
theorem cleanUp_elsewhere [Interpreter] {b : Build} {staging : Path} {place : Place} {w : World}
    (h : Enters w.disk staging place) {p : Place} (hp : ¬ place <+: p) :
    ((b.cleanUp staging).perform w).2.disk.get? p = w.disk.get? p := by
  rw [cleanUp_disk]
  split
  · rfl
  · exact Disk.removeTree_elsewhere h hp

/-- An artifact was packed in a staging directory that had been furnished. -/
theorem assemble_ok [Interpreter] {b : Build} {package : Package} {staging : Path} {w w' : World}
    {artifact : Artifact} (h : (b.assemble package staging).perform w = (.ok artifact, w')) :
    ∃ version w₂ packed, (b.furnish package staging).perform w = (.ok version, w₂) ∧
      (Archive.pack staging (b.archivePath package.name)).perform (w₂.announced .archive) =
        (.ok (), packed) ∧
      artifact = ⟨staging, b.archivePath package.name, package.name, version⟩ ∧
      w'.disk = packed.disk := by
  rw [assemble_eq] at h
  obtain ⟨version, w₂, hfurnish, h⟩ := Run.perform_bind_eq_ok h
  obtain ⟨archive, w₃, hstage, h⟩ := Run.perform_bind_eq_ok h
  rw [Run.perform_pure] at h
  obtain ⟨hartifact, rfl⟩ := Prod.mk.inj h
  obtain ⟨v, hbody, rfl⟩ := stage_ok hstage
  unfold packArchive at hbody
  obtain ⟨⟨⟩, packed, hpack, hbody⟩ := Run.perform_bind_eq_ok hbody
  rw [Run.perform_bind_ok _ (Run.perform_say _ _), Run.perform_pure] at hbody
  obtain ⟨harchive, rfl⟩ := Prod.mk.inj hbody
  obtain rfl := Except.ok.inj harchive
  exact ⟨version, w₂, packed, hfurnish, hpack, (Except.ok.inj hartifact).symm, rfl⟩

/-- The package file in the archive of an artifact says the version of the artifact, or there was no
release and it says none, and then the artifact has the version of a package that does not say. -/
theorem run_packs_version [Interpreter] {b : Build} {w final : World} {artifact : Artifact}
    (hwf : w.disk.WellFormed) (hstandard : b.strategies = InstallStrategy.standard)
    (hcompiler : ∀ package staging place w₁, b.Opened w package staging place w₁ →
      package.hasCompiledSource = true →
      CompilesInto b.directory staging place w₁.disk
        (b.runner (b.compiler package staging) w₁.disk).2)
    (hinstaller : ∀ package staging place w₁ strategy call,
      b.Opened w package staging place w₁ →
      b.HandedOver staging place strategy (b.discovered w)
        (b.compiled package staging w₁.disk) call → call ∈ b.callsMade w →
      KeepsPackageFile staging place call.disk (b.runner call.command call.disk).2)
    (harchive : ∀ archive opened place, b.archiving? w = some (archive, opened) →
      b.stagingPlace? w = some place → opened.Avoids archive place)
    (hrun : b.run.perform w = (.ok artifact, final)) :
    ∃ members, Packs final.disk artifact.archive members ∧
      b.Versioned members artifact.version := by
  rcases hprepare : b.prepare.perform w with ⟨e | ⟨package, staging⟩, w₁⟩
  · rw [perform_run_of_error hprepare] at hrun
    cases hrun
  obtain ⟨-, houtcome, rfl⟩ := run_eq_ok hprepare hrun
  obtain ⟨place, hopened, hsite, hdisk, hcalls⟩ := opened_of_prepare hwf hprepare
  have hcompiled := compilesInto_compiled hsite hdisk (hcompiler package staging place w₁ hopened)
  obtain ⟨version, w₂, packed, hfurnish, hpack, rfl, hleft⟩ := assemble_ok (Prod.ext houtcome rfl)
  -- What the package manager is handed says the version, and it keeps the package file.
  obtain ⟨hversion, strategy, last, hselect, hfilled, hcalled, hinstalled⟩ :=
    furnish_ok hstandard hcompiled.receives hfurnish
  have hinstalls := installsWith_of_discover hopened.discover hselect
  have hhanded := handedOver_of_filled hsite hcompiled hinstalls hfilled
  obtain ⟨content, members, hread, hholds, hversioned⟩ :=
    versioned_of_handedOver hopened.discover hversion hhanded
  have hmade : b.callsMade w = b.compilerCalls package staging w₁.disk ++
      [⟨installer staging strategy, last⟩] := by
    refine callsMade_of_prepare hprepare hcalls ?_
    rw [hfurnish, hcalled, List.append_assoc]
  have hkeeps := hinstaller package staging place w₁ strategy _ hopened hhanded
    (by rw [hmade]; exact List.mem_append_right _ List.mem_cons_self)
  rw [← hinstalled] at hkeeps
  have hfile : w₂.disk.get? (place ++ [Utf8.canonical packageFilename]) =
      last.get? (place ++ [Utf8.canonical packageFilename]) := hkeeps.same
  obtain ⟨-, hpackage, -, hmanifest, hlock⟩ := hfilled
  obtain ⟨mode, hfound⟩ := find_package hinstalls.lockFilename hpackage hmanifest hlock
  rw [Disk.read_eq_ok.2 ⟨_, mode, hfound⟩] at hread
  obtain rfl := Except.ok.inj hread
  rw [(Disk.find_eq_ok.1 hfound).2] at hfile
  -- It is packed, and the archive outlasts the staging directory.
  have hplace : b.stagingPlace? w = some place := by
    rw [stagingPlace?, hprepare]
    dsimp only
    rw [(Disk.find_eq_ok.1 hopened.found).1]
    rfl
  have hclear := harchive _ _ place (by
    rw [archiving?, hprepare]
    dsimp only
    rw [hfurnish]) hplace
  obtain ⟨henters, hextended, target, packs, written, hlocated, hshown, hmember⟩ :=
    packs_of_pack (w := w₂.announced .archive) hkeeps.sound hkeeps.enters hfile hkeeps.single
      hclear hpack
  have hroot : place ≠ [] := by
    rintro rfl
    have hfree := hsite.free
    rw [Disk.get?_root] at hfree
    cases hfree
  rw [← hleft] at henters
  have harchived := read_of_elsewhere hroot hclear hlocated hextended hshown fun p hp => by
    rw [cleanUp_elsewhere (b := b) henters hp, hleft]
  exact ⟨members, ⟨packs, mode, _, harchived, hmember, hholds⟩, hversioned⟩

/-! ## The small project -/

/-- The build of the small project for a release. -/
def releasing : Build :=
  { small with settings := { small.settings with releaseReference := some "v1.2.3" } }

/-- A compiler that is found to have compiled has done so into the staging directory. -/
theorem compilesInto_of_hasCompiled [Interpreter] {b : Build} {w : World}
    (h : b.hasCompiled w = true) {package : Package} {staging : Path} {place : Place} {w₁ : World}
    (hopened : b.Opened w package staging place w₁) :
    CompilesInto b.directory staging place w₁.disk
      (b.runner (b.compiler package staging) w₁.disk).2 := by
  rw [hasCompiled, hopened.prepare] at h
  dsimp only at h
  rw [hopened.found] at h
  exact compilesInto_of_check h

/-- Whether every call of a build finds a sound disk, and the package file in the staging directory
under one name. -/
def callsSingle [Interpreter] (b : Build) (w : World) : Bool :=
  match b.stagingPlace? w with
  | some place => (b.callsMade w).all fun call => call.disk.isSound &&
      call.disk.sharers (place ++ [Utf8.canonical packageFilename]) ==
        [place ++ [Utf8.canonical packageFilename]]
  | none => true

/-- A package manager that does nothing keeps the package file. -/
theorem keepsPackageFile_of_callsSingle [Interpreter] {b : Build} {w : World}
    (h : b.callsSingle w = true) (hidle : ∀ command disk, (b.runner command disk).2 = disk)
    {package : Package} {staging : Path} {place : Place} {w₁ : World} {strategy : InstallStrategy}
    {call : Call} (hopened : b.Opened w package staging place w₁)
    (hhanded : b.HandedOver staging place strategy (b.discovered w)
      (b.compiled package staging w₁.disk) call) (hcall : call ∈ b.callsMade w) :
    KeepsPackageFile staging place call.disk (b.runner call.command call.disk).2 := by
  have hplace : b.stagingPlace? w = some place := by
    rw [stagingPlace?, hopened.prepare]
    dsimp only
    rw [(Disk.find_eq_ok.1 hopened.found).1]
    rfl
  unfold callsSingle at h
  rw [hplace] at h
  have hfine := List.all_eq_true.1 h call hcall
  rw [Bool.and_eq_true, beq_iff_eq] at hfine
  rw [hidle]
  exact ⟨hhanded.enters, rfl, hfine.2, Disk.sound_of_check hfine.1⟩

/-- Whether the archive of a build is made elsewhere than in the staging directory. -/
def packsElsewhere [Interpreter] (b : Build) (w : World) : Bool :=
  match b.archiving? w, b.stagingPlace? w with
  | some (archive, opened), some place => opened.isAvoiding archive place
  | _, _ => true

/-- An archive that is found to be made elsewhere avoids the staging directory. -/
theorem avoids_of_packsElsewhere [Interpreter] {b : Build} {w : World}
    (h : b.packsElsewhere w = true) {archive : Path} {opened : Disk} {place : Place}
    (harchive : b.archiving? w = some (archive, opened)) (hplace : b.stagingPlace? w = some place) :
    opened.Avoids archive place := by
  unfold packsElsewhere at h
  rw [harchive, hplace] at h
  exact Disk.avoids_of_check h

/-- The release of the small project is packed with its version. -/
theorem run_packs_version_small : ∃ artifact final members,
    releasing.run.perform smallWorld = (.ok artifact, final) ∧
    Packs final.disk artifact.archive members ∧
    Json.lookup "version" members = some (.text artifact.version) := by
  have hchecks : (smallDisk.isWellFormed && releasing.hasCompiled smallWorld &&
      releasing.callsSingle smallWorld && releasing.packsElsewhere smallWorld &&
      (releasing.run.perform smallWorld).1.toOption.isSome) = true := by
    rewrite [hasCompiled, callsSingle, callsMade, packsElsewhere, archiving?, stagingPlace?]
    decide +kernel
  simp only [Bool.and_eq_true] at hchecks
  obtain ⟨⟨⟨⟨hwf, hcompiled⟩, hsingle⟩, helsewhere⟩, hok⟩ := hchecks
  rcases hrun : releasing.run.perform smallWorld with ⟨e | artifact, final⟩
  · rw [hrun] at hok
    cases hok
  obtain ⟨members, hpacks, hversioned⟩ := run_packs_version (Disk.wellFormed_of_check hwf) rfl
    (fun package staging place w₁ hopened _ => compilesInto_of_hasCompiled hcompiled hopened)
    (fun package staging place w₁ strategy call =>
      keepsPackageFile_of_callsSingle hsingle fun _ _ => rfl)
    (fun archive opened place => avoids_of_packsElsewhere helsewhere) hrun
  refine ⟨artifact, final, members, rfl, hpacks, hversioned.resolve_right ?_⟩
  rintro ⟨hnone, -⟩
  cases hnone

/-! ## A package that does not say -/

/-- The members of the package file in an archive. -/
def packedMembers? [Interpreter] (disk : Disk) (archive : Path) : Option (List (Text × Json)) :=
  match disk.read archive with
  | .ok (.archive packed) => packed.findSome? fun
    | .file name _ content =>
      if name = packageFilename then
        match (Utf8.decode content.data).toOption.map (Json.read ·.normalizeNewlines) with
        | some (.ok (.object members)) => some members
        | _ => none
      else none
    | _ => none
  | _ => none

/-- An archive whose package file has members packs them. -/
theorem packs_of_packedMembers? [Interpreter] {disk : Disk} {archive : Path}
    {members : List (Text × Json)} (h : packedMembers? disk archive = some members) :
    Packs disk archive members := by
  unfold packedMembers? at h
  split at h
  next packed hread =>
    obtain ⟨member, hmember, h⟩ := List.exists_of_findSome?_eq_some h
    cases member with
    | file name mode content =>
      dsimp only at h
      split at h
      next hname =>
        subst hname
        refine ⟨packed, mode, content, hread, hmember, ?_⟩
        rcases hdecode : Utf8.decode content.data with fault | text
        · rw [hdecode] at h
          cases h
        · rw [hdecode] at h
          dsimp only [Except.toOption, Option.map] at h
          split at h
          next found hjson =>
            cases h
            exact ⟨text, hdecode, fun room hroom =>
              Json.readWithin_mono (Nat.le_of_lt hroom) (Option.some.inj hjson)⟩
          next => cases h
      next => cases h
    | directory => cases h
    | link => cases h
    | sameFile => cases h
    | pipe => cases h
    | device => cases h
    | unknown => cases h
  next => cases h

/-- Without a release, a package file that gives no version is packed without one, although the
artifact has one and the tools have done nothing. -/
theorem run_packs_no_version :
    (∀ command disk, (small.runner command disk).2 = disk) ∧
    ∃ artifact final members, small.run.perform smallWorld = (.ok artifact, final) ∧
      Packs final.disk artifact.archive members ∧
      artifact.version = Package.defaultVersion ∧ Json.lookup "version" members = none := by
  have hchecks : ((small.run.perform smallWorld).1.toOption.any fun artifact =>
      artifact.version == Package.defaultVersion &&
        (packedMembers? (small.run.perform smallWorld).2.disk artifact.archive).any fun members =>
          (Json.lookup "version" members).isNone) = true := by
    decide +kernel
  rcases hrun : small.run.perform smallWorld with ⟨e | artifact, final⟩
  · rw [hrun] at hchecks
    cases hchecks
  rw [hrun] at hchecks
  simp only [Except.toOption, Option.any_some, Bool.and_eq_true, beq_iff_eq] at hchecks
  obtain ⟨hversion, hmembers⟩ := hchecks
  obtain ⟨members, hpacked, hnone⟩ := (Option.any_eq_true _ _).1 hmembers
  exact ⟨fun _ _ => rfl, artifact, final, members, rfl, packs_of_packedMembers? hpacked, hversion,
    Option.isNone_iff_eq_none.1 hnone⟩

end Build

end ProviderKit
