import ProviderKit.Proofs.Build.ArchivePath
import ProviderKit.Proofs.Build.Generation
import ProviderKit.Proofs.Build.Trace
import ProviderKit.Proofs.Build.Workspace

/-!
# What a build leaves alone

Outside the staging directory a build changes the declarations, the archive, and the directories
that the archive needs, and nothing else, provided that the tools it calls stay within the staging
directory (`run_frame`). The declarations change only once they have been generated, and the archive
only once the dependencies have been installed.
-/

namespace ProviderKit

open Disk (Extended ancestor)

/-! ## Packing -/

/-- The path leads to no link, and what it leads to has no other name. -/
def Disk.Sole (disk : Disk) (path : Path) : Prop :=
  ∀ place, disk.locate false path = .ok place →
    (∀ target, disk.get? place ≠ some (.link target)) ∧ disk.sharers place = [place]

/-- What packing makes of the disk on which the archive is opened: at most the archive changes. -/
structure Packing (archive : Path) (opened disk : Disk) : Prop where
  wellFormed : disk.WellFormed
  sole : disk.Sole archive
  extended : Extended opened disk
  located : ∀ q, disk.locate false archive = .ok q → opened.locate false archive = .ok q
  view : ∀ q, disk.get? q = opened.get? q ∨ opened.locate false archive = .ok q

/-- Nothing has been packed yet. -/
theorem Packing.refl {archive : Path} {opened : Disk} (hwf : opened.WellFormed)
    (hsole : opened.Sole archive) : Packing archive opened opened :=
  ⟨hwf, hsole, fun _ entry hp => ⟨entry, hp, rfl⟩, fun _ h => h, fun _ => .inl rfl⟩

/-- The archive is written. -/
theorem Packing.write {archive : Path} {opened disk left : Disk} {content : Content}
    (h : Packing archive opened disk) (hwrite : disk.write archive content = .ok left) :
    Packing archive opened left := by
  obtain ⟨place', hthrough, hwritten⟩ := Disk.write_ok h.wellFormed hwrite
  obtain ⟨hgivable, hwalk⟩ := Disk.walk_of_locate hthrough
  obtain ⟨place, hshort, hplace⟩ := Disk.walk_short hwalk
  have hlocate := Disk.locate_of_walk hgivable hshort
  obtain ⟨hlink, halone⟩ := h.sole place hlocate
  obtain rfl := hplace.resolve_right fun ⟨target, htarget⟩ => hlink target htarget
  have hext := hwritten.extended h.wellFormed
  obtain ⟨mode, hfile⟩ := hwritten.shown place (Disk.mem_sharers_self _ _)
  have hlocate' : left.locate false archive = .ok place := by
    refine Disk.locate_of_extended hext ?_ hlocate
    rw [hfile]
    rintro - _ ⟨⟩
  have hat : ∀ q, left.locate false archive = .ok q → q = place := by
    intro q hq
    rw [hlocate'] at hq
    exact (Except.ok.inj hq).symm
  refine ⟨hwritten.wellFormed, fun q hq => ?_, h.extended.trans hext, fun q hq => ?_, fun q => ?_⟩
  · rw [hat q hq]
    exact ⟨fun target => by rw [hfile]; simp, by rw [hwritten.sharers, halone]⟩
  · rw [hat q hq]
    exact h.located place hlocate
  · by_cases hq : q = place
    · exact .inr (hq ▸ h.located place hlocate)
    · rw [hwritten.view q (by simpa [halone] using hq)]
      exact h.view q

/-- Packing opens the archive once the directories above it have been made, and then changes nothing
but the archive. -/
theorem pack_packing [Interpreter] (source archive : Path) {w : World} (hwf : w.disk.WellFormed)
    (hsole : (w.disk.makeDirectories true archive.parent).2.Sole archive) :
    Packing archive (w.disk.makeDirectories true archive.parent).2
      ((Archive.pack source archive).perform w).2.disk := by
  have hopened := (Disk.makeDirectories_grown hwf true archive.parent).wellFormed
  generalize hgen : (w.disk.makeDirectories true archive.parent).2 = opened at *
  have hR := Run.kept_lasting fun w => Packing archive opened w.disk
  have hwrite : ∀ content : Disk → Content, Run.Relates
      (Run.Kept fun w => Packing archive opened w.disk)
      (Run.request fun disk => disk.write archive (content disk)) := by
    intro content w h
    rcases hrequest : w.disk.write archive (content w.disk) with fault | left
    · rw [Run.perform_request_error hrequest]
      exact h
    · rw [Run.perform_request_ok hrequest]
      exact h.write hrequest
  unfold Archive.pack
  refine Run.kept_bind (I := fun w => Packing archive opened w.disk) ?_ fun _ => ?_
  · rw [Run.perform_requests]
    show Packing archive opened (w.disk.makeDirectories true archive.parent).2
    rw [hgen]
    exact .refl hopened hsole
  · refine .bind hR (hwrite fun _ => .bytes []) fun _ => ?_
    refine .bind hR (fun _ h => h) fun _ => ?_
    refine .bind hR (fun _ h => h) fun unreached => ?_
    refine .bind hR (hwrite fun disk => .archive _) fun _ => ?_
    cases unreached with
    | none => exact fun _ h => h
    | some path => exact fun _ h => h

namespace Build

/-! ## What a build works with -/

/-- The place of the staging directory of a build, if the build gets one. -/
def stagingPlace? [Interpreter] (b : Build) (w : World) : Option Place :=
  match b.prepare.perform w with
  | (.ok (_, staging), w₁) => (w₁.disk.locate false staging).toOption
  | (.error _, _) => none

/-- The disk on which a build discovers its package. -/
def discovered [Interpreter] (b : Build) (w : World) : Disk :=
  ((stage .generateTypes (generate b.draws b.directory)).perform w).2.disk

/-- The calls that a build makes. -/
def callsMade [Interpreter] (b : Build) (w : World) :
    List Call := (b.run.perform w).2.calls.drop w.calls.length

/-- The path of the archive of a build, and the disk on which the archive is opened once the
directories above it have been made, if the build gets so far. -/
def archiving? [Interpreter] (b : Build) (w : World) : Option (Path × Disk) :=
  match b.prepare.perform w with
  | (.error _, _) => none
  | (.ok (package, staging), w₁) =>
    match (b.furnish package staging).perform w₁ with
    | (.error _, _) => none
    | (.ok _, w₂) =>
      let archive := b.archivePath package.name
      some (archive, (w₂.disk.makeDirectories true archive.parent).2)

/-! ## The record and the calls -/

/-- The record of the second world goes on from that of the first one. -/
def RecordGrows (before after : World) : Prop := before.completed <+: after.completed

/-- The record depends neither on the disk nor on messages. -/
theorem recordGrows_unaffected : Run.Unaffected RecordGrows where
  refl _ := List.prefix_refl _
  trans hab hbc := hab.trans hbc
  disk _ _ := List.prefix_refl _
  say _ _ _ := List.prefix_refl _

/-- Calls do not depend on the disk or on messages. -/
theorem sameCalls_unaffected : Run.Unaffected (Run.Same World.calls) where
  toLasting := Run.same_lasting _
  disk _ _ := rfl
  say _ _ _ := rfl

/-- A furnished staging directory is one where the dependencies have been installed. -/
theorem furnish_completed [Interpreter] {b : Build} {package : Package} {staging : Path}
    {version : Text} {w w' : World}
    (h : (b.furnish package staging).perform w = (.ok version, w')) :
    w.completed ++ (plan package.hasCompiledSource).dropLast = w'.completed := by
  have hR := sameCompleted_unaffected
  have hrest : ∀ {w : World}, Run.perform (do
      let version ← stage .resolveVersion (b.stagePackage package staging)
      stage .stageFiles (b.stageFiles package staging)
      stage .installDependencies (b.installDependencies package staging)
      pure version) w = (.ok version, w') →
      w.completed ++ [.resolveVersion, .stageFiles, .installDependencies] = w'.completed := by
    intro w h
    obtain ⟨_, w₁, hpackage, h⟩ := Run.perform_bind_eq_ok h
    obtain ⟨_, w₂, hfiles, h⟩ := Run.perform_bind_eq_ok h
    obtain ⟨_, w₃, hinstall, h⟩ := Run.perform_bind_eq_ok h
    cases h
    rw [stage_completed (installDependencies_relates hR sameCompleted_call b package staging)
        hinstall, stage_completed (stageFiles_relates hR b package staging) hfiles,
      stage_completed (stagePackage_relates hR b package staging) hpackage]
    simp
  unfold furnish at h
  cases hcompiled : package.hasCompiledSource with
  | false =>
    rw [hcompiled, if_neg (by simp)] at h
    exact hrest h
  | true =>
    rw [hcompiled, if_pos rfl] at h
    obtain ⟨_, w₁, hcompile, h⟩ := Run.perform_bind_eq_ok h
    rw [← hrest h, stage_completed (compile_relates hR sameCompleted_call b package staging)
      hcompile, List.append_assoc]
    rfl

/-! ## The preparation -/

/-- The stage that generates the declarations has generated them when it is done. -/
theorem generateStage_ok [Interpreter] {b : Build} {w w' : World} {path : Path}
    (hwf : w.disk.WellFormed)
    (h : (stage .generateTypes (generate b.draws b.directory)).perform w = (.ok path, w')) :
    (∃ types, Generated b.directory types w.disk w'.disk) ∧ w'.calls = w.calls ∧
      w'.completed = w.completed ++ [.generateTypes] := by
  have hcalls := stage_relates sameCalls_unaffected (fun _ _ => rfl) .generateTypes
    (generate_relates sameCalls_unaffected b.draws b.directory) w
  rw [h] at hcalls
  have hcompleted := stage_completed (generate_relates sameCompleted_unaffected _ _) h
  obtain ⟨left, hbody, rfl⟩ := stage_ok h
  have hview := generate_view b.draws b.directory (w := w.announced .generateTypes) hwf
  rw [hbody] at hview
  exact ⟨hview, hcalls, hcompleted⟩

/-- A build that has its staging directory has made it where nothing was, once it had generated the
declarations. -/
theorem prepare_site [Interpreter] {b : Build} {w w₁ : World} {package : Package} {staging : Path}
    (hwf : w.disk.WellFormed) (h : b.prepare.perform w = (.ok (package, staging), w₁)) :
    ∃ types place, Generated b.directory types w.disk (b.discovered w) ∧
      Package.discover (b.discovered w) b.directory = .ok package ∧
      Site staging place (b.discovered w) ∧
      w₁.disk = (b.discovered w).put place .directory ∧ w₁.calls = w.calls ∧
      w₁.completed = w.completed ++ opening ∧
      ∃ parent draw, place = parent ++ [Utf8.canonical (stagingStart ++ draw)] := by
  obtain ⟨path, generated, found, made, hgenerate, hdiscover, hmake, rfl⟩ := prepare_ok h
  have hgenerated : b.discovered w = generated.disk := by rw [discovered, hgenerate]
  rw [hgenerated]
  obtain ⟨⟨types, htypes⟩, hcalls, hcompleted⟩ := generateStage_ok hwf hgenerate
  obtain ⟨hpackage, hdisk, hcalls'⟩ := discover_ok hdiscover
  have hcompleted' := stage_completed (discover_relates sameCompleted_unaffected b) hdiscover
  obtain ⟨place, hlocate, hfree, rfl, directory, -, draw, hstaging⟩ := makeStaging_ok hmake
  rw [hdisk] at hlocate hfree
  have hplain : Disk.IsPlain (Utf8.canonical (stagingStart ++ draw)) := by
    have hsize : 2 < Utf8.losslessSize stagingStart := by decide
    refine Disk.isPlain_canonical ?_
    rw [Disk.losslessSize_append]
    omega
  obtain ⟨parent, hparent, -⟩ := Disk.walk_append_plain hplain
    (by rw [← Disk.readNames_child, ← hstaging]; exact (Disk.walk_of_locate hlocate).2)
  refine ⟨types, place, htypes, hpackage, ⟨htypes.wellFormed, hlocate, hfree⟩,
    by rw [← hdisk], hcalls'.trans hcalls, ?_, parent, draw, hparent⟩
  show found.completed ++ [.prepareWorkspace] = _
  rw [hcompleted', hcompleted, List.append_assoc, List.append_assoc]
  rfl

/-- Looking at the package leaves the disk alone. -/
theorem discover_sameDisk [Interpreter] (b : Build) :
    Run.Relates (Run.Same World.disk) (stage .discover b.discover) := by
  have hR := Run.same_lasting World.disk
  have hdiscover : Run.Relates (Run.Same World.disk) b.discover :=
    .bind hR (fun _ => rfl) fun _ => .bind hR (fun _ => rfl) fun _ _ => rfl
  refine .bind hR (fun _ => rfl) fun _ => ?_
  exact .bind hR hdiscover fun _ => .bind hR (fun _ => rfl) fun _ _ => rfl

/-- A staging directory that could not be made has left the disk alone. -/
theorem makeStaging_error {b : Build} {w w' : World} {e : Failure}
    (h : b.makeStaging.perform w = (.error e, w')) : w' = w := by
  unfold makeStaging at h
  rcases hdirectory : b.temporaryDirectory w.disk with e' | directory
  · rw [Run.perform_bind_error _ (by rw [Run.perform_look, hdirectory])] at h
    cases h
    rfl
  rw [Run.perform_bind_ok _ (a := directory) (by rw [Run.perform_look, hdirectory])] at h
  rcases hpath : w.disk.temporaryPath directory stagingStart [] b.draws with fault | path
  · rw [Run.perform_bind_error (e := .disk fault) _ (by rw [Run.perform_look, hpath]; rfl)] at h
    cases h
    rfl
  rw [Run.perform_bind_ok _ (a := path) (by rw [Run.perform_look, hpath]; rfl)] at h
  rcases hmake : w.disk.makeDirectory path with fault | made
  · rw [Run.perform_bind_error _ (Run.perform_request_error hmake)] at h
    cases h
    rfl
  · rw [Run.perform_bind_ok _ (Run.perform_request_ok hmake), Run.perform_pure] at h
    cases h

/-- A build that gets no staging directory has changed nothing, or nothing but the declarations. -/
theorem prepare_error_view [Interpreter] {b : Build} {w w' : World} {e : Failure}
    (hwf : w.disk.WellFormed) (h : b.prepare.perform w = (.error e, w')) :
    w'.completed = w.completed ∧ (∀ q, w'.disk.get? q = w.disk.get? q) ∨
    (w.completed ++ [.generateTypes] <+: w'.completed ∧
      ∃ types, Generated b.directory types w.disk w'.disk) := by
  unfold prepare at h
  -- A failure of the first stage changes nothing, a later one leaves the declarations.
  rcases hgenerate : (stage .generateTypes (generate b.draws b.directory)).perform w with
    ⟨e' | path, generated⟩
  · rw [Run.perform_bind_error _ hgenerate] at h
    cases h
    have hbody := stage_error hgenerate
    have hview := generate_view b.draws b.directory (w := w.announced .generateTypes) hwf
    have hkeep := generate_relates sameCompleted_unaffected b.draws b.directory
      (w.announced .generateTypes)
    rw [hbody] at hview hkeep
    exact .inl ⟨hkeep, hview⟩
  obtain ⟨⟨types, htypes⟩, -, hcompleted⟩ := generateStage_ok hwf hgenerate
  rw [Run.perform_bind_ok _ hgenerate] at h
  rcases hdiscover : (stage .discover b.discover).perform generated with ⟨e' | package, found⟩
  · rw [Run.perform_bind_error _ hdiscover] at h
    cases h
    have hdisk := discover_sameDisk b generated
    have hkeep := discover_relates sameCompleted_unaffected b (generated.announced .discover)
    rw [hdiscover] at hdisk
    rw [stage_error hdiscover] at hkeep
    refine .inr ⟨?_, types, ?_⟩
    · have hsame : w'.completed = w.completed ++ [.generateTypes] := hkeep.trans hcompleted
      exact hsame ▸ List.prefix_refl _
    · rw [hdisk]
      exact htypes
  rw [Run.perform_bind_ok _ hdiscover] at h
  obtain ⟨-, hdisk, -⟩ := discover_ok hdiscover
  have hcompleted' := stage_completed (discover_relates sameCompleted_unaffected b) hdiscover
  rcases hmake : b.makeStaging.perform found with ⟨e' | staging, made⟩
  · rw [Run.perform_bind_error _ hmake] at h
    cases h
    obtain rfl := makeStaging_error hmake
    refine .inr ⟨?_, types, ?_⟩
    · rw [hcompleted', hcompleted]
      exact List.prefix_append _ _
    · rw [hdisk]
      exact htypes
  · rw [Run.perform_bind_ok _ hmake, Run.perform_bind_ok _ (Run.perform_complete _ _),
      Run.perform_bind_ok _ (Run.perform_say _ _), Run.perform_pure] at h
    cases h

/-! ## The work in the staging directory -/

/-- The stage of the archive changes the disk as packing does. -/
theorem archiveStage_disk [Interpreter] (b : Build) (package : Package) (staging : Path)
    (version : Text) (w : World) : (Run.perform (do
      let archive ← stage .archive (b.packArchive package staging)
      pure (⟨staging, archive, package.name, version⟩ : Artifact)) w).2.disk =
    ((Archive.pack staging (b.archivePath package.name)).perform
      (w.announced .archive)).2.disk := by
  have hpack : ∀ w, ((b.packArchive package staging).perform w).2.disk =
      ((Archive.pack staging (b.archivePath package.name)).perform w).2.disk := by
    intro w
    unfold packArchive
    rcases hpack : (Archive.pack staging (b.archivePath package.name)).perform w with ⟨e | ⟨⟩, w'⟩
    · rw [Run.perform_bind_error _ hpack]
    · rw [Run.perform_bind_ok _ hpack, Run.perform_bind_ok _ (Run.perform_say _ _),
        Run.perform_pure]
  rw [← hpack]
  rcases hbody : (b.packArchive package staging).perform (w.announced .archive) with
    ⟨e | archive, w'⟩
  · rw [Run.perform_bind_error _ (perform_stage_error hbody)]
  · rw [Run.perform_bind_ok _ (perform_stage_ok hbody), Run.perform_pure]
    rfl

/-- Packing makes no calls. -/
theorem assemble_calls [Interpreter] {b : Build} {package : Package} {staging : Path} (w : World) :
    ((b.assemble package staging).perform w).2.calls =
      ((b.furnish package staging).perform w).2.calls := by
  rw [assemble_eq]
  rcases hrun : (b.furnish package staging).perform w with ⟨e | version, w'⟩
  · rw [Run.perform_bind_error _ hrun]
  · rw [Run.perform_bind_ok _ hrun]
    exact Run.Relates.bind sameCalls_unaffected.toLasting
      (stage_relates sameCalls_unaffected (fun _ _ => rfl) .archive
        (packArchive_relates sameCalls_unaffected b package staging))
      (fun archive => sameCalls_unaffected.pure
        (⟨staging, archive, package.name, version⟩ : Artifact)) w'

section Assembly

variable {b : Build} {package : Package} {staging : Path} {place : Place} {base : Disk}
  (hsite : Site staging place base)
include hsite

/-- Cleaning up changes nothing outside the staging directory. -/
theorem cleanUp_view [Interpreter] {w : World} (hext : Extended base w.disk)
    (hdirectory : w.disk.get? place = some .directory) {q : Place} (hq : ¬ place <+: q) :
    ((b.cleanUp staging).perform w).2.disk.get? q = w.disk.get? q := by
  rw [cleanUp_disk]
  split
  · rfl
  · exact Disk.removeTree_view hsite.wellFormed hsite.free hsite.located hext hdirectory hq

/-- The work in the staging directory changes nothing outside it but the archive, once the
directory has been furnished, and adds directories above the archive. -/
theorem assemble_view [Interpreter] (hstandard : b.strategies ⊆ InstallStrategy.standard)
    {w₁ : World} (hdisk : w₁.disk = base.put place .directory)
    (hcalls : ∀ call ∈ ((b.assemble package staging).perform w₁).2.calls.drop w₁.calls.length,
      Confined place call.disk (b.runner call.command call.disk).2)
    (hsole : ∀ version w₂, (b.furnish package staging).perform w₁ = (.ok version, w₂) →
      (w₂.disk.makeDirectories true (b.archivePath package.name).parent).2.Sole
        (b.archivePath package.name)) :
    let left := ((b.assemble package staging).perform w₁).2.disk
    Extended base left ∧ left.get? place = some .directory ∧
    ∀ q, ¬ place <+: q → left.get? q = base.get? q ∨
      ∃ version w₂, (b.furnish package staging).perform w₁ = (.ok version, w₂) ∧
        let archive := b.archivePath package.name
        let opened := (w₂.disk.makeDirectories true archive.parent).2
        opened.locate false archive = .ok q ∨
          (base.get? q = none ∧ left.get? q = some .directory ∧
            ∃ n, opened.locate false (ancestor archive.parent n) = .ok q) := by
  -- What the tools leave is still a site of the staging directory, and packing starts from it.
  have hstart : b.Working w₁.calls.length place base w₁ :=
    ⟨Nat.le_refl _, fun _ => hdisk ▸ hsite.staged⟩
  have hfurnish := working_furnish hsite hstandard package w₁ hstart
  rw [assemble_calls] at hcalls
  have hstaged := hfurnish.staged hcalls
  rw [assemble_eq]
  rcases hrun : (b.furnish package staging).perform w₁ with ⟨e | version, w₂⟩
  all_goals rw [hrun] at hstaged
  · rw [Run.perform_bind_error _ hrun]
    exact ⟨hsite.extended hstaged, hstaged.directory, fun q hq => .inl (hstaged.elsewhere q hq)⟩
  rw [Run.perform_bind_ok _ hrun, archiveStage_disk]
  have hgrown := Disk.makeDirectories_grown hstaged.wellFormed true
    (b.archivePath package.name).parent
  have hpacking := pack_packing staging (b.archivePath package.name) (w := w₂.announced .archive)
    hstaged.wellFormed (hsole version w₂ hrun)
  change Packing _ (w₂.disk.makeDirectories true (b.archivePath package.name).parent).2 _
    at hpacking
  have hext := hgrown.extended.trans hpacking.extended
  refine ⟨(hsite.extended hstaged).trans hext, hext.directory hstaged.directory, fun q hq => ?_⟩
  rcases hpacking.view q with hsame | hlocated
  · rw [hsame]
    rcases hgrown.view q with hold | ⟨hfree, hdirectory, path, ⟨n, rfl⟩, hlocate⟩
    · exact .inl (hold.trans (hstaged.elsewhere q hq))
    · refine .inr ⟨version, w₂, rfl, .inr ⟨?_, hdirectory, n, hlocate⟩⟩
      rw [← hstaged.elsewhere q hq, hfree]
  · exact .inr ⟨version, w₂, rfl, .inl hlocated⟩

end Assembly

/-! ## A whole build -/

/-- The files of a project that say what is to be packed. -/
def projectFilenames : List Text :=
  [packageFilename, manifestFilename, "package-lock.json", "yarn.lock"]

/-- The place is outside the staging directory of the build, if the build gets one. -/
def Outside [Interpreter] (b : Build) (w : World) (q : Place) : Prop :=
  ∀ place, b.stagingPlace? w = some place → ¬ place <+: q

/-- What a build may change outside its staging directory: the declarations once they have been
generated, and once the dependencies have been installed the archive and the missing directories
above it. -/
def MayChange [Interpreter] (b : Build) (w : World) (done : List Stage) (final : Disk) (q : Place) :
    Prop :=
  (.generateTypes ∈ done ∧
    w.disk.locate false (b.directory.child declarationFilename) = .ok q) ∨
  (.installDependencies ∈ done ∧ ∃ archive opened, b.archiving? w = some (archive, opened) ∧
    (opened.locate false archive = .ok q ∨
      (w.disk.get? q = none ∧ final.get? q = some .directory ∧
        ∃ n, opened.locate false (ancestor archive.parent n) = .ok q)))

/-- A build that has its staging directory has recorded the stages up to it, and once the directory
has been furnished the installation. -/
theorem run_recorded [Interpreter] {b : Build} {w w₁ : World} {package : Package} {staging : Path}
    {segment : List Stage} (hprepare : b.prepare.perform w = (.ok (package, staging), w₁))
    (hopening : w₁.completed = w.completed ++ opening)
    (hsegment : (b.run.perform w).2.completed = w.completed ++ segment) :
    .generateTypes ∈ segment ∧
      (∀ version w₂, (b.furnish package staging).perform w₁ = (.ok version, w₂) →
        .installDependencies ∈ segment) := by
  have hgrows : ((b.assemble package staging).perform w₁).2.completed <+:
      w.completed ++ segment := by
    obtain ⟨said, recorded, hclean⟩ :=
      b.cleanUp_world staging ((b.assemble package staging).perform w₁).2
    rw [← hsegment, perform_run_world hprepare, hclean]
    exact List.prefix_append _ _
  have hassemble : RecordGrows w₁ ((b.assemble package staging).perform w₁).2 :=
    assemble_relates recordGrows_unaffected (fun _ _ => List.prefix_append _ _)
      (fun _ _ => List.prefix_refl _) b package staging w₁
  constructor
  · have hprefix := hassemble.trans hgrows
    rw [hopening, List.prefix_append_right_inj] at hprefix
    exact hprefix.subset (by simp [opening])
  · intro version w₂ hfurnish
    have hlast := Run.Relates.bind recordGrows_unaffected.toLasting
      (stage_relates recordGrows_unaffected (fun _ _ => List.prefix_append _ _) .archive
        (packArchive_relates recordGrows_unaffected b package staging))
      (fun archive => recordGrows_unaffected.pure
        (⟨staging, archive, package.name, version⟩ : Artifact)) w₂
    have hprefix : w₂.completed <+: w.completed ++ segment := by
      refine List.IsPrefix.trans hlast ?_
      rw [assemble_eq, Run.perform_bind_ok _ hfurnish] at hgrows
      exact hgrows
    rw [← furnish_completed hfurnish, hopening, List.append_assoc,
      List.prefix_append_right_inj] at hprefix
    refine hprefix.subset (List.mem_append_right _ ?_)
    cases package.hasCompiledSource <;> simp [plan]

/-- The outside of the staging directory at the end of a build. -/
theorem run_view [Interpreter] {b : Build} {w : World} (hwf : w.disk.WellFormed)
    (hstandard : b.strategies ⊆ InstallStrategy.standard)
    (hcalls : ∀ place, b.stagingPlace? w = some place → ∀ call ∈ b.callsMade w,
      Confined place call.disk (b.runner call.command call.disk).2)
    (hsole : ∀ archive opened, b.archiving? w = some (archive, opened) → opened.Sole archive)
    {segment : List Stage} (hsegment : (b.run.perform w).2.completed = w.completed ++ segment)
    {q : Place} (hq : b.Outside w q) :
    (b.run.perform w).2.disk.get? q = w.disk.get? q ∨
      b.MayChange w segment (b.run.perform w).2.disk q := by
  rcases hprepare : b.prepare.perform w with ⟨e | ⟨package, staging⟩, w₁⟩
  · have hrun := perform_run_of_error hprepare
    rw [hrun] at hsegment ⊢
    rcases prepare_error_view hwf hprepare with ⟨-, hsame⟩ | ⟨hdone, types, htypes⟩
    · exact .inl (hsame q)
    by_cases heq : q = types
    · subst heq
      refine .inr (.inl ⟨?_, htypes.located⟩)
      rw [hsegment, List.prefix_append_right_inj] at hdone
      exact hdone.subset (by simp)
    · exact .inl (htypes.view q heq)
  obtain ⟨types, place, htypes, -, hsite, hdisk, hcalls₁, hopening, -⟩ :=
    prepare_site hwf hprepare
  obtain ⟨hgenerated, hinstalled⟩ := run_recorded hprepare hopening hsegment
  have hfound := Disk.find_put_directory hsite.located hsite.free
  have hplace : b.stagingPlace? w = some place := by
    rw [stagingPlace?, hprepare]
    dsimp only
    rw [hdisk, (Disk.find_eq_ok.1 hfound).1]
    rfl
  have hnot := hq place hplace
  have hrun := perform_run_world hprepare
  have hconfined := hcalls place hplace
  rw [callsMade, hrun, ← hcalls₁, cleanUp_calls] at hconfined
  have harchiving : ∀ version w₂, (b.furnish package staging).perform w₁ = (.ok version, w₂) →
      b.archiving? w = some (b.archivePath package.name,
        (w₂.disk.makeDirectories true (b.archivePath package.name).parent).2) := by
    intro version w₂ hfurnish
    rw [archiving?, hprepare]
    dsimp only
    rw [hfurnish]
  -- Cleaning up touches nothing outside the staging directory, so the stages decide.
  obtain ⟨hext, hdirectory, hview⟩ := assemble_view hsite hstandard hdisk hconfined
    fun version w₂ hfurnish => hsole _ _ (harchiving version w₂ hfurnish)
  have hfinal : (b.run.perform w).2.disk.get? q =
      ((b.assemble package staging).perform w₁).2.disk.get? q := by
    rw [hrun]
    exact cleanUp_view hsite hext hdirectory hnot
  rw [MayChange, hfinal]
  by_cases heq : q = types
  · subst heq
    exact .inr (.inl ⟨hgenerated, htypes.located⟩)
  rcases hview q hnot with hsame | ⟨version, w₂, hfurnish, hchange⟩
  · exact .inl (hsame.trans (htypes.view q heq))
  · refine .inr (.inr ⟨hinstalled version w₂ hfurnish, _, _, harchiving version w₂ hfurnish, ?_⟩)
    rw [← htypes.view q heq]
    exact hchange

/-- What was there before a build, other than its declarations, is outside its staging directory. -/
theorem outside_of_entry [Interpreter] {b : Build} {w : World} (hwf : w.disk.WellFormed) {q : Place}
    {entry : Entry} (hq : w.disk.get? q = some entry)
    (hne : w.disk.locate false (b.directory.child declarationFilename) ≠ .ok q) :
    b.Outside w q := by
  intro place hplace
  unfold stagingPlace? at hplace
  split at hplace
  next package staging w₁ hprepare =>
    obtain ⟨types, site, htypes, -, hsite, hdisk, -⟩ := prepare_site hwf hprepare
    have hfound := Disk.find_put_directory hsite.located hsite.free
    rw [hdisk, (Disk.find_eq_ok.1 hfound).1] at hplace
    cases hplace
    have htypes' : q ≠ types := by
      rintro rfl
      exact hne htypes.located
    exact hsite.wellFormed.not_below_of_free hsite.free ((htypes.view q htypes').trans hq)
  next => cases hplace

/-- The directory for archives is outside the staging directory. -/
theorem outside_of_dist [Interpreter] {b : Build} {w : World} (hwf : w.disk.WellFormed) {q : Place}
    (hq : w.disk.locate false (b.directory.child distName) = .ok q) : b.Outside w q := by
  intro place hplace
  unfold stagingPlace? at hplace
  split at hplace
  next package staging w₁ hprepare =>
    obtain ⟨types, site, htypes, -, hsite, hdisk, -, -, parent, draw, hsitename⟩ :=
      prepare_site hwf hprepare
    have hfound := Disk.find_put_directory hsite.located hsite.free
    rw [hdisk, (Disk.find_eq_ok.1 hfound).1] at hplace
    cases hplace
    obtain ⟨above, henters, rfl⟩ := Disk.locate_child_eq (Disk.isPlain_canonical (by decide)) hq
    have habove : (b.discovered w).get? above = some .directory := by
      rw [htypes.view above, henters.directory]
      rintro rfl
      exact htypes.noDirectory henters.directory
    have hnot := hsite.wellFormed.not_below_of_free hsite.free habove
    rw [List.prefix_concat_iff]
    rintro (heq | hbelow)
    · rw [hsitename] at heq
      have hname := (List.cons.inj (List.append_inj' heq rfl).2).1
      have hsize := congrArg Utf8.losslessSize hname
      simp only [Utf8.losslessSize, Utf8.encodeLossless_canonical, Utf8.encodeLossless_append,
        List.length_append] at hsize
      have hstart : (Utf8.encodeLossless stagingStart).length = 15 := by decide
      have hdist : (Utf8.encodeLossless distName).length = 4 := by decide
      omega
    · exact hnot hbelow
  next => cases hplace

/-- The archive that a build works on has the path of an archive. -/
theorem archiving?_path [Interpreter] {b : Build} {w : World} {archive : Path} {opened : Disk}
    (h : b.archiving? w = some (archive, opened)) : ∃ name, archive = b.archivePath name := by
  unfold archiving? at h
  split at h
  · cases h
  split at h
  · cases h
  · cases h
    exact ⟨_, rfl⟩

/-- On a well-formed disk, with tools that stay within the staging directory and an archive that is
opened under the sole name of no link, a build leaves everything outside its staging directory as it
was but for what it may change. Before the dependencies have been installed no archive changes and
no directory for archives comes, and the files that say what is to be packed never change. -/
theorem run_frame [Interpreter] {b : Build} {w : World} (hwf : w.disk.WellFormed)
    (hstandard : b.strategies ⊆ InstallStrategy.standard)
    (hcalls : ∀ place, b.stagingPlace? w = some place → ∀ call ∈ b.callsMade w,
      Confined place call.disk (b.runner call.command call.disk).2)
    (hsole : ∀ archive opened, b.archiving? w = some (archive, opened) → opened.Sole archive) :
    let final := (b.run.perform w).2
    ∃ done, final.completed = w.completed ++ done ∧
      (∀ q, b.Outside w q →
        final.disk.get? q = w.disk.get? q ∨ b.MayChange w done final.disk q) ∧
      (.installDependencies ∉ done →
        (∀ name place entry, w.disk.find false (b.archivePath name) = .ok (place, entry) →
          final.disk.get? place = some entry) ∧
        (∀ place, w.disk.locate false (b.directory.child distName) = .ok place →
          w.disk.get? place = none → final.disk.get? place = none)) ∧
      (∀ name ∈ projectFilenames, ∀ place entry,
        w.disk.find false (b.directory.child name) = .ok (place, entry) →
        final.disk.get? place = some entry) := by
  intro final
  obtain ⟨done, hdone, -⟩ := b.run_log w
  have hview := fun {q} => run_view (q := q) hwf hstandard hcalls hsole hdone
  -- An archive and the files that are packed have other names than the declarations.
  have htypes : ∀ {types}, w.disk.locate false (b.directory.child declarationFilename) =
      .ok types → ∃ parent, types = parent ++ [Utf8.canonical declarationFilename] := by
    intro types hlocate
    obtain ⟨parent, -, h⟩ := Disk.locate_child_eq (Disk.isPlain_canonical (by decide)) hlocate
    exact ⟨parent, h⟩
  have hother : ∀ {name : Text} {place : Place}, Disk.IsPlain (Utf8.canonical name) →
      Utf8.canonical name ≠ Utf8.canonical declarationFilename →
      w.disk.locate false (b.directory.child name) = .ok place →
      w.disk.locate false (b.directory.child declarationFilename) ≠ .ok place := by
    intro name place hplain hne hlocate heq
    obtain ⟨parent, rfl⟩ := htypes heq
    obtain ⟨above, -, hplace⟩ := Disk.locate_child_eq hplain hlocate
    exact hne (List.cons.inj (List.append_inj' hplace rfl).2).1.symm
  refine ⟨done, hdone, fun q hq => hview hq, fun hnone => ⟨?_, ?_⟩, ?_⟩
  · intro name place entry hfind
    obtain ⟨hlocate, hget⟩ := Disk.find_eq_ok.1 hfind
    have hne : w.disk.locate false (b.directory.child declarationFilename) ≠ .ok place := by
      intro heq
      obtain ⟨parent, hparent⟩ := htypes heq
      exact archivePath_ne (by decide) hlocate hparent
    rcases hview (outside_of_entry hwf hget hne) with hsame | ⟨-, heq⟩ | ⟨hinstalled, -⟩
    · exact hsame.trans hget
    · exact absurd heq hne
    · exact absurd hinstalled hnone
  · intro place hlocate hfree
    have hne := hother (Disk.isPlain_canonical (by decide)) (by decide) hlocate
    rcases hview (outside_of_dist hwf hlocate) with hsame | ⟨-, heq⟩ | ⟨hinstalled, -⟩
    · exact hsame.trans hfree
    · exact absurd heq hne
    · exact absurd hinstalled hnone
  · intro name hname place entry hfind
    -- The names of the files that are packed are known, so what tells them apart is decided.
    have hfacts : ∀ name ∈ projectFilenames, 2 < Utf8.losslessSize name ∧
        Utf8.canonical name ≠ Utf8.canonical declarationFilename ∧
        ¬ Utf8.encodeLossless archiveEnd <:+ Utf8.encodeLossless name := by
      decide
    obtain ⟨hsize, hcanonical, hend⟩ := hfacts name hname
    obtain ⟨hlocate, hget⟩ := Disk.find_eq_ok.1 hfind
    have hplain := Disk.isPlain_canonical hsize
    have hne := hother hplain hcanonical hlocate
    rcases hview (outside_of_entry hwf hget hne) with hsame |
      ⟨-, heq⟩ | ⟨-, archive, opened, harchiving, harchive | ⟨hfree, -⟩⟩
    · exact hsame.trans hget
    · exact absurd heq hne
    · obtain ⟨package, rfl⟩ := archiving?_path harchiving
      obtain ⟨above, -, hplace⟩ := Disk.locate_child_eq hplain hlocate
      exact absurd hplace (archivePath_ne hend harchive)
    · rw [hget] at hfree
      cases hfree

/-! ## The small project -/

/-- Whether a path leads to no link, and what it leads to has no other name. -/
def isSole (disk : Disk) (path : Path) : Bool :=
  match disk.locate false path with
  | .ok place => !(disk.get? place).any Entry.isLink && disk.sharers place == [place]
  | .error _ => true

/-- A path can be checked to lead to no link and to what has no other name. -/
theorem sole_of_check {disk : Disk} {path : Path} (h : isSole disk path = true) :
    disk.Sole path := by
  intro place hlocate
  rw [isSole, hlocate] at h
  simp only [Bool.and_eq_true, Bool.not_eq_true', beq_iff_eq] at h
  refine ⟨fun target hlink => ?_, h.2⟩
  rw [hlink] at h
  cases h.1

/-- Whether all calls of a build find a tidy disk. -/
def callsTidy [Interpreter] (b : Build) (w : World) : Bool :=
  match b.stagingPlace? w with
  | some place => (b.callsMade w).all fun call => isTidy place call.disk
  | none => true

/-- Tools that do nothing stay within the staging directory when they find it tidy. -/
theorem confined_of_callsTidy [Interpreter] {b : Build} {w : World} (h : b.callsTidy w = true)
    (hidle : ∀ command disk, (b.runner command disk).2 = disk) :
    ∀ place, b.stagingPlace? w = some place → ∀ call ∈ b.callsMade w,
      Confined place call.disk (b.runner call.command call.disk).2 := by
  intro place hplace call hcall
  unfold callsTidy at h
  rw [hplace] at h
  rw [hidle]
  exact confined_of_tidy (List.all_eq_true.1 h call hcall)

/-- The build of the small project installs its dependencies and leaves its package file as it
was. -/
theorem run_frame_small :
    .installDependencies ∈ (small.run.perform smallWorld).2.completed ∧
    (small.run.perform smallWorld).2.disk.get? [Text.ofString "p", packageFilename] =
      some (.file .usual smallText) := by
  have hchecks : (smallDisk.isWellFormed && small.callsTidy smallWorld &&
      (small.archiving? smallWorld).all (fun (archive, opened) => isSole opened archive) &&
      (small.run.perform smallWorld).2.completed.contains .installDependencies) = true := by
    rewrite [callsTidy, callsMade, stagingPlace?, archiving?]
    decide +kernel
  simp only [Bool.and_eq_true, List.contains_iff_mem] at hchecks
  obtain ⟨⟨⟨hwf, hcalls⟩, hsole⟩, hinstalled⟩ := hchecks
  have hframe := run_frame (b := small) (w := smallWorld) (Disk.wellFormed_of_check hwf)
    (fun _ h => h) (confined_of_callsTidy hcalls fun _ _ => rfl) (by
      intro archive opened harchiving
      rw [harchiving] at hsole
      exact sole_of_check hsole)
  obtain ⟨done, -, -, -, hfiles⟩ := hframe
  exact ⟨hinstalled, hfiles packageFilename (by decide) _ _ rfl⟩

/-! ## Second names -/

/-- The build leaves the package file of its project as it was. -/
def KeepsPackage [Interpreter] (b : Build) (w : World) : Prop :=
  ∀ place entry, w.disk.find false (b.directory.child packageFilename) = .ok (place, entry) →
    (b.run.perform w).2.disk.get? place = some entry

/-- The place of the package file of the small project. -/
def smallPackage : Place := [Text.ofString "p", packageFilename]

/-- The file at the place of the small project's package file is not what it was before. -/
def overwritten [Interpreter] (b : Build) (w : World) : Bool :=
  match w.disk.find false (b.directory.child packageFilename),
    (b.run.perform w).2.disk.get? smallPackage with
  | .ok (place, .file _ (.bytes before)), some (.file _ (.bytes after)) =>
    place == smallPackage && before != after
  | .ok (place, .file _ (.bytes _)), some (.file _ (.archive _)) => place == smallPackage
  | _, _ => false

/-- A package file that is overwritten is not kept. -/
theorem not_keepsPackage [Interpreter] {b : Build} {w : World} (h : overwritten b w = true) :
    ¬ b.KeepsPackage w := by
  intro hkeeps
  rw [overwritten] at h
  split at h
  next place _ before _ after hfind hget =>
    simp only [Bool.and_eq_true, beq_iff_eq, bne_iff_ne] at h
    obtain ⟨rfl, hne⟩ := h
    rw [hkeeps _ _ hfind] at hget
    cases hget
    exact hne rfl
  next place _ before _ _ hfind hget =>
    rw [beq_iff_eq] at h
    subst h
    rw [hkeeps _ _ hfind] at hget
    cases hget
  next => cases h

/-- Whether there is no link on a disk. -/
def hasNoLink (disk : Disk) : Bool := disk.entries.all fun (_, entry) => !entry.isLink

/-- A disk can be checked to hold no link. -/
theorem noLink_of_check {disk : Disk} (h : hasNoLink disk = true) (p : Place) (target : Text) :
    disk.get? p ≠ some (.link target) := by
  intro hlink
  by_cases hp : p = []
  · rw [hp, Disk.get?_root] at hlink
    cases hlink
  · rw [Disk.get?_of_ne_root hp] at hlink
    have hfine := List.all_eq_true.1 h _ (Disk.mem_of_find? hlink)
    cases hfine

/-- The small project with an archive that is a second name of the package file. -/
def sharedWorld : World where
  disk :=
    { entries := smallDisk.entries ++
        [([Text.ofString "p", distName], .directory),
         ([Text.ofString "p", distName, "x.tar.gz"],
          .file .usual smallText)]
      shared := [[smallPackage, [Text.ofString "p", distName, "x.tar.gz"]]] }

/-- The small project with a package name that leads through a directory that is not there yet, to
a link. -/
def uncoveredWorld : World where
  disk :=
    { entries :=
        [([Text.ofString "t"], .directory),
         ([Text.ofString "p"], .directory),
         ([Text.ofString "p", "schema.json"], .file .usual (.ofChars "\x7b\x7d".toList)),
         (smallPackage, .file .usual (.ofChars "\x7b\"name\":\"a/../b\"\x7d".toList)),
         ([Text.ofString "p", manifestFilename], .file .usual (.ofChars "m".toList)),
         ([Text.ofString "p", distName], .directory),
         ([Text.ofString "p", distName, "b.tar.gz"], .link "../package.json")] }

/-- The small project with something to compile. -/
def compiledWorld : World where
  disk :=
    { entries := smallDisk.entries ++
        [([Text.ofString "p", Package.compilerFilename],
          .file .usual (.ofChars "\x7b\x7d".toList))] }

/-- The manifest in the staging directory of the small project. -/
def smallManifest : Place := [Text.ofString "t", "provider-build-a", manifestFilename]

/-- A build of the small project with a compiler that gives the package file a second name in the
staging directory. -/
def linking : Build :=
  { small with
    runner := fun command disk =>
      (.ok ⟨0, []⟩, if command.args.contains "tsc" then
        disk.share smallPackage smallManifest (.file .usual smallText)
      else disk) }

/-- On a disk without any link, an archive that is a second name of the package file makes a build
overwrite that. -/
theorem shared_overwritten : sharedWorld.disk.WellFormed ∧
    (∀ place, small.stagingPlace? sharedWorld = some place → ∀ call ∈ small.callsMade sharedWorld,
      Confined place call.disk (small.runner call.command call.disk).2) ∧
    (∀ p target, sharedWorld.disk.get? p ≠ some (.link target)) ∧
    ¬ small.KeepsPackage sharedWorld := by
  have hchecks : (sharedWorld.disk.isWellFormed && small.callsTidy sharedWorld &&
      hasNoLink sharedWorld.disk && overwritten small sharedWorld) = true := by
    rewrite [callsTidy, callsMade, stagingPlace?, overwritten]
    decide +kernel
  simp only [Bool.and_eq_true] at hchecks
  obtain ⟨⟨⟨hwf, hcalls⟩, hlinks⟩, hfinal⟩ := hchecks
  exact ⟨Disk.wellFormed_of_check hwf, confined_of_callsTidy hcalls fun _ _ => rfl,
    noLink_of_check hlinks, not_keepsPackage hfinal⟩

/-- On a disk where every file has one name, a directory that is made above the archive can uncover
a link to the package file at the end of the archive's path, where there was none before. -/
theorem uncovered_overwritten : uncoveredWorld.disk.WellFormed ∧
    (∀ place, small.stagingPlace? uncoveredWorld = some place →
      ∀ call ∈ small.callsMade uncoveredWorld,
        Confined place call.disk (small.runner call.command call.disk).2) ∧
    uncoveredWorld.disk.shared = [] ∧
    (∀ archive opened, small.archiving? uncoveredWorld = some (archive, opened) →
      ∀ place target, uncoveredWorld.disk.locate false archive = .ok place →
        uncoveredWorld.disk.get? place ≠ some (.link target)) ∧
    ¬ small.KeepsPackage uncoveredWorld := by
  have hchecks : (uncoveredWorld.disk.isWellFormed && small.callsTidy uncoveredWorld &&
      (small.archiving? uncoveredWorld).all (fun (archive, _) =>
        isSole uncoveredWorld.disk archive) &&
      overwritten small uncoveredWorld) = true := by
    rewrite [callsTidy, callsMade, stagingPlace?, archiving?, overwritten]
    decide +kernel
  simp only [Bool.and_eq_true] at hchecks
  obtain ⟨⟨⟨hwf, hcalls⟩, harchive⟩, hfinal⟩ := hchecks
  refine ⟨Disk.wellFormed_of_check hwf, confined_of_callsTidy hcalls fun _ _ => rfl, rfl, ?_,
    not_keepsPackage hfinal⟩
  intro archive opened harchiving place target hlocate
  rw [harchiving] at harchive
  exact (sole_of_check harchive place hlocate).1 target

/-- On a disk without any link where every file has one name, a tool that changes only what is below
the staging directory can make the build overwrite the package file. -/
theorem linking_overwritten : compiledWorld.disk.WellFormed ∧
    (∀ place, linking.stagingPlace? compiledWorld = some place →
      ∀ call ∈ linking.callsMade compiledWorld,
        let after := (linking.runner call.command call.disk).2
        (∀ q, ¬ (place <+: q ∧ q ≠ place) → after.get? q = call.disk.get? q) ∧
        (∀ p target, after.get? p ≠ some (.link target)) ∧ after.WellFormed) ∧
    compiledWorld.disk.shared = [] ∧
    (∀ p target, compiledWorld.disk.get? p ≠ some (.link target)) ∧
    ¬ linking.KeepsPackage compiledWorld := by
  have hchecks : (compiledWorld.disk.isWellFormed && hasNoLink compiledWorld.disk &&
      (linking.stagingPlace? compiledWorld == some smallManifest.dropLast) &&
      (linking.callsMade compiledWorld).all (fun call =>
        let after := (linking.runner call.command call.disk).2
        after.isWellFormed && hasNoLink after) &&
      overwritten linking compiledWorld) = true := by
    rewrite [callsMade, stagingPlace?, overwritten]
    decide +kernel
  simp only [Bool.and_eq_true, beq_iff_eq] at hchecks
  obtain ⟨⟨⟨⟨hwf, hlinks⟩, hstaging⟩, hcalls⟩, hfinal⟩ := hchecks
  refine ⟨Disk.wellFormed_of_check hwf, ?_, rfl, noLink_of_check hlinks, not_keepsPackage hfinal⟩
  intro place hplace call hcall after
  rw [hstaging] at hplace
  cases hplace
  have hcheck := List.all_eq_true.1 hcalls call hcall
  rw [Bool.and_eq_true] at hcheck
  refine ⟨fun q hq => ?_, noLink_of_check hcheck.2, Disk.wellFormed_of_check hcheck.1⟩
  have hne : q ≠ smallManifest := by
    rintro rfl
    exact hq ⟨List.dropLast_prefix _, by decide⟩
  show (if _ then _ else _ : Disk).get? q = _
  split
  · exact Disk.get?_share_of_ne hne _ _ _
  · rfl

/-- Whether files have second names, what stands at the end of the archive's path when the archive
is opened, and what the tools have given second names to all decide about what a build leaves
alone. -/
theorem run_frame_needs_sole :
    (∃ (b : Build) (w : World), w.disk.WellFormed ∧
      (∀ place, b.stagingPlace? w = some place → ∀ call ∈ b.callsMade w,
        Confined place call.disk (b.runner call.command call.disk).2) ∧
      (∀ p target, w.disk.get? p ≠ some (.link target)) ∧ ¬ b.KeepsPackage w) ∧
    (∃ (b : Build) (w : World), w.disk.WellFormed ∧
      (∀ place, b.stagingPlace? w = some place → ∀ call ∈ b.callsMade w,
        Confined place call.disk (b.runner call.command call.disk).2) ∧
      w.disk.shared = [] ∧
      (∀ archive opened, b.archiving? w = some (archive, opened) →
        ∀ place target, w.disk.locate false archive = .ok place →
          w.disk.get? place ≠ some (.link target)) ∧ ¬ b.KeepsPackage w) ∧
    (∃ (b : Build) (w : World), w.disk.WellFormed ∧
      (∀ place, b.stagingPlace? w = some place → ∀ call ∈ b.callsMade w,
        let after := (b.runner call.command call.disk).2
        (∀ q, ¬ (place <+: q ∧ q ≠ place) → after.get? q = call.disk.get? q) ∧
        (∀ p target, after.get? p ≠ some (.link target)) ∧ after.WellFormed) ∧
      w.disk.shared = [] ∧ (∀ p target, w.disk.get? p ≠ some (.link target)) ∧
      ¬ b.KeepsPackage w) :=
  ⟨⟨_, _, shared_overwritten⟩, ⟨_, _, uncovered_overwritten⟩, ⟨_, _, linking_overwritten⟩⟩

end Build

end ProviderKit
