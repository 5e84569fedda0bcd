import ProviderKit.Proofs.Build.Version
import ProviderKit.Proofs.Disk.Regular
import ProviderKit.Proofs.Install.Freshening

/-!
# What a build leaves to an installation

A build that gives an artifact has packed a tree, and then at most removed the staging directory
(`run_finished`). If its tools leave a disk as a machine keeps it, so does the build: what it puts
there itself has names that a disk takes (`Regular.written`, `Regular.makeDirectories_child`).
-/

namespace ProviderKit

namespace Disk

/-- A disk is still as a machine keeps it when a directory has been made in one that is there, under
a name that a disk takes. -/
theorem Regular.makeDirectories_child [Interpreter] {disk : Disk} (h : disk.Regular) {path : Path}
    {place : Place} (henters : Enters disk path place) {name : Text}
    (hname : IsName (Utf8.canonical name)) (mayExist : Bool) :
    (disk.makeDirectories mayExist (path.child name)).2.Regular := by
  refine h.of_new (h.toSound.makeDirectoriesWith _ mayExist _) fun p entry hp => ?_
  have hgrown := makeDirectories_grown h.toWellFormed mayExist (path.child name)
  rcases henters.above_of_grown hname.plain hgrown p with hsame | ⟨rfl, -, hnew, -⟩
  · exact .inl (hsame ▸ hp)
  · rw [hnew] at hp
    obtain rfl := Option.some.inj hp
    exact .inr ⟨rfl, fun _ => ⟨place, _, rfl, by simp [henters.directory], hname⟩⟩

end Disk

namespace Build

open Disk (Enters Extended)

/-! ## Furnishing -/

/-- The calls become no fewer. -/
def CallsGrow (before after : World) : Prop := before.calls.length ≤ after.calls.length

theorem callsGrow_unaffected : Run.Unaffected CallsGrow where
  refl _ := Nat.le_refl _
  trans := Nat.le_trans
  disk _ _ := Nat.le_refl _
  say _ _ _ := Nat.le_refl _

/-- Once all is in the staging directory, it is as the package manager has left it. -/
theorem rest_last [Interpreter] {b : Build} {package : Package} {staging : Path} {version : Text}
    {w w' : World}
    (h : Run.perform (do
      let version ← stage .resolveVersion (b.stagePackage package staging)
      stage .stageFiles (b.stageFiles package staging)
      stage .installDependencies (b.installDependencies package staging)
      pure version) w = (.ok version, w')) :
    ((b.settings.releaseReference = none → version = package.version) ∧
      ∀ reference, b.settings.releaseReference = some reference →
        Release.version reference = .ok version) ∧
    ∃ call ∈ w'.calls.drop w.calls.length, w'.disk = (b.runner call.command call.disk).2 := by
  have hrecord : ∀ w s, CallsGrow w (World.recorded w s) := fun _ _ => Nat.le_refl _
  obtain ⟨_, w₁, hpackage, h⟩ := Run.perform_bind_eq_ok h
  obtain ⟨⟨⟩, w₂, hfiles, h⟩ := Run.perform_bind_eq_ok h
  obtain ⟨⟨⟩, w₃, hinstall, h⟩ := Run.perform_bind_eq_ok h
  cases h
  have hgrows₁ := stage_relates callsGrow_unaffected hrecord .resolveVersion
    (stagePackage_relates callsGrow_unaffected b package staging) w
  have hgrows₂ := stage_relates callsGrow_unaffected hrecord .stageFiles
    (stageFiles_relates callsGrow_unaffected b package staging) w₁
  rw [hpackage] at hgrows₁
  rw [hfiles] at hgrows₂
  obtain ⟨v, hbody, rfl⟩ := stage_ok hpackage
  refine ⟨stagePackage_version hbody, ?_⟩
  obtain ⟨_, hinstalled, -⟩ := stage_ok hinstall
  unfold installDependencies Build.strategy at hinstalled
  obtain ⟨strategy, _, hstrategy, -⟩ := Run.perform_bind_eq_ok hinstalled
  rw [Run.perform_ofExcept] at hstrategy
  obtain ⟨hcalls, hdisk⟩ := installStage_left (orProblem_eq_ok.1 (Prod.mk.inj hstrategy).1)
    staging w₂
  rw [hinstall] at hcalls hdisk
  refine ⟨⟨installer staging strategy, w₂.disk⟩, ?_, hdisk⟩
  dsimp only at hcalls
  rw [hcalls, List.drop_append_of_le_length (hgrows₁.trans hgrows₂)]
  exact List.mem_append_right _ List.mem_cons_self

/-- A staging directory that has been furnished is as the last tool has left it, and the version is
that of the package or of the release. -/
theorem furnish_last [Interpreter] {b : Build} {package : Package} {staging : Path} {version : Text}
    {w w' : World} (h : (b.furnish package staging).perform w = (.ok version, w')) :
    ((b.settings.releaseReference = none → version = package.version) ∧
      ∀ reference, b.settings.releaseReference = some reference →
        Release.version reference = .ok version) ∧
    ∃ call ∈ w'.calls.drop w.calls.length, w'.disk = (b.runner call.command call.disk).2 := by
  unfold furnish at h
  rcases hcompiled : package.hasCompiledSource with _ | _
  · rw [hcompiled, if_neg Bool.false_ne_true] at h
    exact rest_last h
  · rw [hcompiled, if_pos rfl] at h
    obtain ⟨_, w₁, hcompile, h⟩ := Run.perform_bind_eq_ok h
    have hgrows := stage_relates callsGrow_unaffected (fun _ _ => Nat.le_refl _) .compile
      (compile_relates callsGrow_unaffected (fun w call => by simp [CallsGrow]) b package staging) w
    rw [hcompile] at hgrows
    obtain ⟨hversion, call, hcall, hdisk⟩ := rest_last h
    exact ⟨hversion, call, (List.drop_sublist_drop_left _ hgrows).subset hcall, hdisk⟩

/-! ## What has been packed -/

/-- The archive of a package without a slash in its name is directly in the directory for archives.
-/
theorem archivePath_child (b : Build) {name : Text} (hname : .char '/' ∉ name) :
    b.archivePath name = (b.directory.child distName).child (name ++ archiveEnd) := by
  have hslash : .char '/' ∉ name ++ archiveEnd := by
    simp only [List.mem_append, not_or]
    exact ⟨hname, by decide⟩
  refine Path.join_ofText hslash (List.append_ne_nil_of_right_ne_nil _ (List.cons_ne_nil _ _)) ?_
  intro heq
  have hlength : (name ++ archiveEnd).length = (Text.ofString ".").length :=
    congrArg List.length heq
  rw [List.length_append] at hlength
  have hend : archiveEnd.length = 7 := by decide
  have hdot : (Text.ofString ".").length = 1 := by decide
  omega

/-- What an installation finds of a build: the archive was packed from a tree on a disk of which at
most the staging directory has been removed since. -/
structure Finished (archive : Path) (staging : Place) (packed built : Disk) : Prop where
  regular : built.Regular
  read : ∃ (tree : Disk) (source : Place), tree.Sound ∧
    (∀ x entry, tree.get? (source ++ x) = some entry → ∀ name ∈ x, Disk.IsName name) ∧
    packed.read archive = .ok (.archive ((Archive.membersOf tree source).map Archive.stored))
  directory : packed.get? staging = some .directory
  cleaned : built = packed ∨ built = packed.eraseTree staging
  named : ∃ parent draw, staging = parent ++ [Utf8.canonical (stagingStart ++ draw)]

/-- Cleaning up leaves the staging directory, or removes it with all that is in it, where that can
be done. -/
theorem cleanUp_cases [Interpreter] {b : Build} {staging : Path} {place : Place} {base : Disk}
    {w : World} (hsite : Site staging place base) (hext : Extended base w.disk)
    (hdirectory : w.disk.get? place = some .directory) (htidy : b.Tidies staging w.disk) :
    ((b.cleanUp staging).perform w).2.disk = w.disk ∨
      ((b.cleanUp staging).perform w).2.disk = w.disk.eraseTree place := by
  rw [cleanUp_disk]
  cases hretain : b.settings.retain
  · rw [if_neg Bool.false_ne_true]
    refine .inr ?_
    have hfound := hsite.found hext hdirectory
    have hgivable : Disk.IsGivable staging := (Disk.walk_of_locate hsite.located).1
    have hshallow : w.disk.Shallow Interpreter.removing place :=
      ((tidies_iff hgivable).1 htidy).resolve_left (by simp [hretain]) place hfound
    have hemptied : Extended base (w.disk.eraseBelow place) := by
      intro p entry hp
      obtain ⟨entry', hentry', hseen⟩ := hext p entry hp
      have hnot : ¬ place <+: p := hsite.wellFormed.not_below_of_free hsite.free hp
      exact ⟨entry', by rw [Disk.get?_eraseBelow_of_not_below fun h => hnot h.1, hentry'], hseen⟩
    have hremoved := Disk.removeTree_of_emptied hfound hshallow
      (hsite.found hemptied (by
        rw [Disk.get?_eraseBelow_of_not_below fun h => h.2 rfl, hdirectory]))
      (hsite.wellFormed.last_of_free hsite.located hsite.free)
    rw [hremoved]
  · rw [if_pos rfl]
    exact .inl rfl

/-- A project whose package was discovered has a directory. -/
theorem enters_of_discover [Interpreter] {disk : Disk} {directory : Path} {package : Package}
    (h : Package.discover disk directory = .ok package) :
    ∃ place, Enters disk directory place := by
  obtain ⟨members, hload, -⟩ := Package.discover_ok h
  obtain ⟨content, text, hread, -⟩ := Package.load_eq_ok.1 hload
  obtain ⟨place, mode, hfind⟩ := Disk.read_eq_ok.1 hread
  exact Disk.enters_of_child (Disk.find_eq_ok.1 hfind).1

/-- What a package has been packed from on a disk as a machine keeps it. -/
theorem finished_of_pack [Interpreter] {b : Build} {package : Package} {staging : Path}
    {root : Place} {w packed : World} (hregular : w.disk.Regular)
    (henters : Enters w.disk b.directory root) (hname : .char '/' ∉ package.name)
    (hpack : (Archive.pack staging (b.archivePath package.name)).perform w = (.ok (), packed)) :
    Extended w.disk packed.disk ∧ packed.disk.Regular ∧
      ∃ (tree : Disk) (source : Place), tree.Sound ∧
      (∀ x entry, tree.get? (source ++ x) = some entry → ∀ name ∈ x, Disk.IsName name) ∧
      packed.disk.read (b.archivePath package.name) =
        .ok (.archive ((Archive.membersOf tree source).map Archive.stored)) := by
  have hchild := b.archivePath_child hname
  have hparent : (b.archivePath package.name).parent = b.directory.child distName := by
    rw [hchild, Path.parent_child]
  have hgrown := Disk.makeDirectories_grown hregular.toWellFormed true
    (b.archivePath package.name).parent
  obtain ⟨source, target, hpacked⟩ := Archive.packed_of_pack hregular.toSound hpack
  have hopened : (w.disk.makeDirectories true (b.archivePath package.name).parent).2.Regular := by
    rw [hparent]
    exact hregular.makeDirectories_child henters (Disk.isName_of_check (by decide +kernel)) true
  generalize (w.disk.makeDirectories true (b.archivePath package.name).parent).2 = opened at *
  have hend : .char '/' ∉ package.name ++ archiveEnd := by
    simp only [List.mem_append, not_or]
    exact ⟨hname, by decide⟩
  have hnew : opened.get? target = none →
      ∃ parent last, target = parent ++ [last] ∧ opened.get? parent ≠ none ∧ Disk.IsName last :=
    hopened.new_child (List.append_ne_nil_of_right_ne_nil _ (List.cons_ne_nil _ _)) hend
      (hchild ▸ hpacked.located)
  refine ⟨hgrown.extended.trans (hpacked.extended hgrown.wellFormed), ?_, ?_⟩
  · obtain ⟨emptied, hemptied, hfirst, hlast⟩ := hpacked.written
    refine (hopened.written hemptied hfirst hnew).written hpacked.sound hlast fun hfree => ?_
    obtain ⟨mode, hfile⟩ := hfirst.shown target (Disk.mem_sharers_self _ _)
    rw [hfree] at hfile
    cases hfile
  · obtain ⟨emptied, hemptied, hfirst, -, -, hread⟩ := hpacked.read hgrown.wellFormed
    refine ⟨emptied, source, hemptied, fun x entry hget name hname => ?_, hread⟩
    exact (hopened.written hemptied hfirst hnew).names _ entry hget name
      (List.mem_append_right _ hname)

/-- The calls of a build are those that furnish its staging directory. -/
theorem callsMade_eq [Interpreter] {b : Build} {w w₁ : World} {package : Package} {staging : Path}
    (hprepare : b.prepare.perform w = (.ok (package, staging), w₁)) (hcalls : w₁.calls = w.calls) :
    b.callsMade w = ((b.furnish package staging).perform w₁).2.calls.drop w₁.calls.length := by
  rw [callsMade, perform_run_world hprepare, ← hcalls, cleanUp_calls, assemble_calls]

/-- The staging directory of a build as it has been furnished, by tools that stay within it. -/
theorem staged_of_furnish [Interpreter] {b : Build} {w w₁ : World} {package : Package}
    {staging : Path} {place : Place} {base : Disk}
    (hstandard : b.strategies ⊆ InstallStrategy.standard)
    (hprepare : b.prepare.perform w = (.ok (package, staging), w₁)) (hcalls₁ : w₁.calls = w.calls)
    (hsite : Site staging place base) (hdisk : w₁.disk = base.put place .directory)
    (hcalls : ∀ place, b.stagingPlace? w = some place → ∀ call ∈ b.callsMade w,
      Confined place call.disk (b.runner call.command call.disk).2) :
    b.stagingPlace? w = some place ∧
      Staged place base ((b.furnish package staging).perform w₁).2.disk := by
  have hplace : b.stagingPlace? w = some place := by
    rw [stagingPlace?, hprepare]
    dsimp only
    rw [hdisk, (Disk.find_eq_ok.1 (Disk.find_put_directory hsite.located hsite.free)).1]
    rfl
  have hstart : b.Working w₁.calls.length place base w₁ :=
    ⟨Nat.le_refl _, fun _ => hdisk ▸ hsite.staged⟩
  refine ⟨hplace, (working_furnish hsite hstandard package w₁ hstart).staged fun call hcall => ?_⟩
  exact hcalls place hplace call (callsMade_eq hprepare hcalls₁ ▸ hcall)

/-- A build that gives an artifact has packed it on a disk of which at most the staging directory
has been removed since. -/
theorem run_finished [Interpreter] {b : Build} {w built : World} {artifact : Artifact}
    (hwf : w.disk.WellFormed) (hstandard : b.strategies ⊆ InstallStrategy.standard)
    (hcalls : ∀ place, b.stagingPlace? w = some place → ∀ call ∈ b.callsMade w,
      Confined place call.disk (b.runner call.command call.disk).2 ∧
        (b.runner call.command call.disk).2.Regular)
    (hname : ∀ package, Package.discover (b.discovered w) b.directory = .ok package →
      .char '/' ∉ package.name) (hrun : b.run.perform w = (.ok artifact, built)) :
    ∃ package, Package.discover (b.discovered w) b.directory = .ok package ∧
      artifact.name = package.name ∧
      ((b.settings.releaseReference = none → artifact.version = package.version) ∧
        ∀ reference, b.settings.releaseReference = some reference →
          Release.version reference = .ok artifact.version) ∧
      ∃ staging packed, Finished artifact.archive staging packed built.disk := by
  rcases hprepare : b.prepare.perform w with ⟨e | ⟨package, staging⟩, w₁⟩
  · rw [perform_run_of_error hprepare] at hrun
    cases hrun
  obtain ⟨_, place, -, hdiscover, hsite, hdisk, hcalls₁, -, hnamed⟩ := prepare_site hwf hprepare
  obtain ⟨htidy, houtcome, rfl⟩ := run_eq_ok hprepare hrun
  obtain ⟨version, w₂, packed, hfurnish, hpack, rfl, hleft⟩ := assemble_ok (Prod.ext houtcome rfl)
  obtain ⟨hplace, hstaged⟩ := staged_of_furnish hstandard hprepare hcalls₁ hsite hdisk
    fun place hplace call hcall => (hcalls place hplace call hcall).1
  rw [hfurnish] at hstaged
  -- The package is packed on the disk that the last tool has left.
  obtain ⟨hversion, call, hcall, hlast⟩ := furnish_last hfurnish
  have hmade := callsMade_eq hprepare hcalls₁
  rw [hfurnish] at hmade
  have hregular : w₂.disk.Regular := by
    rw [hlast]
    exact (hcalls place hplace call (hmade ▸ hcall)).2
  obtain ⟨root, hproject⟩ := enters_of_discover hdiscover
  have hbase := hsite.extended hstaged
  obtain ⟨hext, hpacked, hread⟩ := finished_of_pack (w := w₂.announced .archive) hregular
    (hproject.extended hbase) (hname package hdiscover) hpack
  have hdirectory := hext.directory hstaged.directory
  refine ⟨package, hdiscover, rfl, hversion, place, packed.disk, ?_⟩
  have hcleaned := cleanUp_cases (b := b) (w := ((b.assemble package staging).perform w₁).2) hsite
    (hleft ▸ hbase.trans hext) (hleft ▸ hdirectory) htidy
  rw [hleft] at hcleaned
  refine ⟨?_, hread, hdirectory, hcleaned, hnamed⟩
  rcases hcleaned with hsame | herased
  · exact hsame ▸ hpacked
  · exact herased ▸ hpacked.eraseTree place

end Build

end ProviderKit
