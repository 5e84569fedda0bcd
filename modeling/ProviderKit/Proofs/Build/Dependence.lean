import ProviderKit.Proofs.Build.Retention
import ProviderKit.Proofs.Build.SamePackage
import ProviderKit.Proofs.Disk.Confinement

/-!
# What an archive depends on

Two builds of projects that are the same in what is packaged make archives with the same members,
whatever else the projects hold and however the builds are set up (`run_packs_same`), as long as the
tools do the same to both staging directories (`SameChanges`). The two runs are compared stage by
stage: their staging directories hold the same tree when they have been made, when the compilers
have been called, when the files of the projects have been put there, and when the package managers
have been called; then they are packed.

For this nothing else may get into the archives. There are four ways in which something can
(`Leak`), and in each of them the archives can differ (`run_packs_other`).
-/

namespace ProviderKit

open Disk (Enters Extended Grown Placed Puts Receives SameDirectory SameTree ancestor readNames)

/-! ## What is packed -/

/-- Of the directories that are made above a file that keeps clear of a tree, none is made in the
tree. -/
theorem Disk.Avoids.outgrown {disk opened : Disk} {archive : Path} {place target p : Place}
    (havoids : opened.Avoids archive place) (hlocated : opened.locate true archive = .ok target)
    (hnames : archive.names ≠ [])
    (hgrown : Grown (fun path => ∃ n, path = ancestor archive.parent n) disk opened)
    (hbelow : place <+: p) : opened.get? p = disk.get? p := by
  rcases hgrown.view p with hsame | ⟨-, hnew, path, ⟨n, rfl⟩, hlocate⟩
  · exact hsame
  obtain ⟨hclear, hoff⟩ := havoids target hlocated
  have hroot : place ≠ [] := by
    rintro rfl
    exact hoff target (Disk.mem_sharers_self _ _) List.nil_prefix
  -- The path of the new directory is the beginning of the path of the file, which can be followed
  -- without the tree: so the directory is not in it.
  rw [Disk.ancestor_parent] at hlocate
  generalize hm : min n (archive.names.length - 1) = m at hlocate
  have hshort : m < archive.names.length := by
    have := List.length_pos_iff.2 hnames
    omega
  have hsplit : readNames archive =
      readNames (ancestor archive m) ++ (readNames archive).drop m := by
    rw [readNames, readNames, ancestor, List.map_take, List.take_append_drop]
  have hrest : (readNames archive).drop m ≠ [] := by
    simpa [readNames] using hshort
  have hwalk := (Disk.walk_of_locate hclear).2
  rw [hsplit] at hwalk
  obtain ⟨-, -, q, harrives, hthere, -⟩ := Disk.walk_append hrest hwalk
  have hq := Disk.walk_of_extended (Disk.extended_eraseTree opened hroot)
    (fun hfree => by rw [hthere] at hfree; cases hfree) harrives
  have hp := Disk.walk_through (by simp [hnew]) (Disk.walk_of_locate hlocate).2
  rw [hq] at hp
  obtain rfl := Except.ok.inj hp
  rw [Disk.get?_eraseTree_of_below hbelow hroot] at hthere
  cases hthere

/-- Packing a directory that the archive keeps clear of leaves the archive with the members of the
tree. -/
theorem tree_of_pack [Interpreter] {staging archive : Path} {place : Place} {w packed : World}
    (hsound : w.disk.Sound) (hfound : w.disk.find true staging = .ok (place, .directory))
    (hnames : archive.names ≠ [])
    (hclear : (w.disk.makeDirectories true archive.parent).2.Avoids archive place)
    (hpack : (Archive.pack staging archive).perform w = (.ok (), packed)) :
    packed.disk.find true staging = .ok (place, .directory) ∧
      Extended (w.disk.makeDirectories true archive.parent).2 packed.disk ∧
      ∃ tree target written, tree.Sound ∧ SameTree w.disk place tree place ∧
        (w.disk.makeDirectories true archive.parent).2.locate true archive = .ok target ∧
        packed.disk.get? target =
          some (.file written (.archive ((Archive.membersOf tree place).map Archive.stored))) := by
  have hgrown := Disk.makeDirectories_grown hsound.toWellFormed true archive.parent
  obtain ⟨place', target, hpacked⟩ := Archive.packed_of_pack hsound hpack
  generalize (w.disk.makeDirectories true archive.parent).2 = opened at *
  have hextended := hpacked.extended hgrown.wellFormed
  have hfound' := Disk.find_directory_of_extended (hgrown.extended.trans hextended) hfound
  obtain rfl : place' = place := by
    rw [hpacked.listed] at hfound'
    exact (Prod.mk.inj (Except.ok.inj hfound')).1
  obtain ⟨-, hoff⟩ := hclear target hpacked.located
  obtain ⟨tree, htree, hfirst, -, -, hread⟩ := hpacked.read hgrown.wellFormed
  refine ⟨hfound', hextended, tree, target, ?_⟩
  obtain ⟨q, written, hfind⟩ := Disk.read_eq_ok.1 hread
  obtain ⟨hlocate, hshown⟩ := Disk.find_eq_ok.1 hfind
  rw [hpacked.locate hgrown.wellFormed] at hlocate
  obtain rfl := Except.ok.inj hlocate
  refine ⟨written, htree, ⟨fun x => ?_, fun x y => ?_⟩, hpacked.located, hshown⟩
  · rw [hfirst.view _ fun hmem => hoff _ hmem (List.prefix_append _ _)]
    exact hclear.outgrown hpacked.located hnames hgrown (List.prefix_append _ _)
  · rw [hfirst.sharers, hgrown.sharers]

namespace Build

/-! ## What is put into the staging directories -/

/-- The package file that is put into a staging directory depends on that of the project and on the
release. -/
theorem PackageContent.unique [Interpreter] {b b' : Build} {disk other : Disk}
    {content content' : Content}
    (hreference : b'.settings.releaseReference = b.settings.releaseReference)
    (hsame : disk.SameContent (b.directory.child packageFilename) other
      (b'.directory.child packageFilename)) (h : b.PackageContent disk content)
    (h' : b'.PackageContent other content') :
    content' = content := by
  obtain ⟨old, hold, hold'⟩ := hsame
  rcases hrelease : b.settings.releaseReference with _ | reference
  · have hread := h.same hrelease
    have hread' := h'.same (hreference.trans hrelease)
    rw [hold] at hread
    rw [hold'] at hread'
    exact (Except.ok.inj hread').symm.trans (Except.ok.inj hread)
  · obtain ⟨version, members, staged, bytes, hversion, hload, htext, hencode, rfl⟩ :=
      h.released reference hrelease
    obtain ⟨version', members', staged', bytes', hversion', hload', htext', hencode', rfl⟩ :=
      h'.released reference (hreference.trans hrelease)
    rw [hversion] at hversion'
    obtain rfl := Except.ok.inj hversion'
    -- The members are those of one text.
    obtain ⟨_, text, hread, hdecode, hjson⟩ := Package.load_eq_ok.1 hload
    obtain ⟨_, text', hread', hdecode', hjson'⟩ := Package.load_eq_ok.1 hload'
    rw [hold] at hread
    rw [hold'] at hread'
    obtain rfl := Except.ok.inj hread
    obtain rfl := Except.ok.inj hread'
    rw [hdecode] at hdecode'
    obtain rfl := Except.ok.inj hdecode'
    rw [hjson] at hjson'
    obtain rfl := Json.object.inj (Except.ok.inj hjson')
    rw [htext] at htext'
    obtain rfl := Except.ok.inj htext'
    rw [hencode] at hencode'
    rw [Option.some.inj hencode']

/-- A file of the project that is not in the directory at the place is read as before when another
file has been put there. -/
theorem StaysOut.read {directory : Path} {place : Place} {names : List Text} {disk left : Disk}
    (h : StaysOut directory place names disk) {name last : Text} {content old : Content}
    (hplaced : Placed (place ++ [last]) content disk left) (hlast : last ∉ names)
    (hname : name ∈ projectFilenames) (hread : disk.read (directory.child name) = .ok old) :
    left.read (directory.child name) = .ok old := by
  obtain ⟨q, mode, hfind⟩ := Disk.read_eq_ok.1 hread
  exact Disk.read_eq_ok.2 ⟨q, mode, hplaced.find hfind (h.ne hname hfind hlast)⟩

/-- What has been put into a staging directory, if the project's manifest and lock file are known.
-/
theorem filled_with [Interpreter] {b : Build} {staging : Path} {place : Place}
    {strategy : InstallStrategy} {compiled last : Disk}
    (hout : StaysOut b.directory place [] compiled)
    (hnames : ∀ name ∈ strategy.lockFilename, name ∈ lockFilenames) {manifest lock : Content}
    (hmanifest : compiled.read (b.directory.child manifestFilename) = .ok manifest)
    (hlock : ∀ name, strategy.lockFilename = some name →
      compiled.read (b.directory.child name) = .ok lock)
    (h : b.Filled staging place strategy compiled last) :
    ∃ content first second, b.PackageContent compiled content ∧
      Puts staging place packageFilename content compiled first ∧
      Puts staging place manifestFilename manifest first second ∧
      ((strategy.lockFilename = none ∧ last = second) ∨
        ∃ name, strategy.lockFilename = some name ∧
          Puts staging place name lock second last) := by
  obtain ⟨hcontent, hpackage, hread, hputs, hlast⟩ := h
  have hfirst := hout.read hpackage.placed List.not_mem_nil (by simp [projectFilenames]) hmanifest
  rw [hread] at hfirst
  obtain rfl := Except.ok.inj hfirst
  refine ⟨_, _, _, hcontent, hpackage, hputs, ?_⟩
  generalize hfilename : strategy.lockFilename = filename at hlast
  cases hlast with
  | nothing hsame => exact .inl ⟨rfl, hsame⟩
  | @copied name content hcopied hputs' =>
    have hproject := lockFilenames_subset (hnames name hfilename)
    have hsecond := (hout.placed hpackage.placed).read hputs.placed
      (by simpa using stagedNames_ne.1.symm) hproject
      (hout.read hpackage.placed List.not_mem_nil hproject (hlock name hfilename))
    rw [hcopied] at hsecond
    obtain rfl := Except.ok.inj hsecond
    exact .inr ⟨name, rfl, hputs'⟩

/-- Staging directories with the same tree hold the same tree when the files of projects that are
the same have been put there. -/
theorem sameTree_of_filled [Interpreter] {b b' : Build} {staging staging' : Path}
    {place place' : Place} {strategy : InstallStrategy} {compiled compiled' last last' : Disk}
    (hreference : b'.settings.releaseReference = b.settings.releaseReference)
    (hnames : ∀ name ∈ strategy.lockFilename, name ∈ lockFilenames)
    (hpackage : compiled.SameContent (b.directory.child packageFilename) compiled'
      (b'.directory.child packageFilename))
    (hmanifest : compiled.SameContent (b.directory.child manifestFilename) compiled'
      (b'.directory.child manifestFilename))
    (hlock : ∀ name, strategy.lockFilename = some name →
      compiled.SameContent (b.directory.child name) compiled' (b'.directory.child name))
    (hout : StaysOut b.directory place [] compiled)
    (hout' : StaysOut b'.directory place' [] compiled')
    (h : b.Filled staging place strategy compiled last)
    (h' : b'.Filled staging' place' strategy compiled' last')
    (htree : SameTree compiled place compiled' place') : SameTree last place last' place' := by
  obtain ⟨manifest, hread, hread'⟩ := hmanifest
  obtain ⟨lock, hlocked, hlocked'⟩ : ∃ lock, (∀ name, strategy.lockFilename = some name →
      compiled.read (b.directory.child name) = .ok lock) ∧
      ∀ name, strategy.lockFilename = some name →
        compiled'.read (b'.directory.child name) = .ok lock := by
    rcases hname : strategy.lockFilename with _ | name
    · exact ⟨default, by simp, by simp⟩
    · obtain ⟨lock, hlocked, hlocked'⟩ := hlock name hname
      refine ⟨lock, ?_, ?_⟩ <;>
      · rintro _ ⟨⟩
        assumption
  obtain ⟨content, first, second, hcontent, hputs, hputs₂, hlast⟩ :=
    filled_with hout hnames hread hlocked h
  obtain ⟨content', first', second', hcontent', hputs', hputs₂', hlast'⟩ :=
    filled_with hout' hnames hread' hlocked' h'
  obtain rfl := PackageContent.unique hreference hpackage hcontent hcontent'
  have hsecond := (htree.placed hputs.placed hputs'.placed).placed hputs₂.placed hputs₂'.placed
  rcases hlast with ⟨hnone, rfl⟩ | ⟨name, hsome, hputs₃⟩
  · rcases hlast' with ⟨-, rfl⟩ | ⟨name, hsome, -⟩
    · exact hsecond
    · rw [hnone] at hsome
      cases hsome
  · rcases hlast' with ⟨hnone, -⟩ | ⟨name', hsome', hputs₃'⟩
    · rw [hnone] at hsome
      cases hsome
    · rw [hsome] at hsome'
      obtain rfl := Option.some.inj hsome'
      exact hsecond.placed hputs₃.placed hputs₃'.placed

/-! ## A whole build -/

/-- The ways in which something else than what is packaged can get into an archive. -/
inductive Leak where
  /-- What is packaged is reached through the declarations. -/
  | declarations
  /-- The compiler changes what is packaged. -/
  | project
  /-- The compiler leaves a link or a second name where a file is to be put. -/
  | staging
  /-- The archive is reached through the staging directory, or has a second name in it. -/
  | archive
deriving DecidableEq

/-- Nothing gets into the archive of the build in the given way. -/
def Tight [Interpreter] (b : Build) (w : World) : Leak → Prop
  | .declarations => ∀ types,
    w.disk.locate false (b.directory.child declarationFilename) = .ok types →
      ∀ name ∈ Package.filenames, w.disk.Skirts types (b.directory.child name)
  | .project => ∀ package staging place w₁, b.Opened w package staging place w₁ →
    package.hasCompiledSource = true → ∀ name ∈ projectFilenames,
      (b.runner (b.compiler package staging) w₁.disk).2.find true (b.directory.child name) =
        w₁.disk.find true (b.directory.child name)
  | .staging => ∀ package staging place w₁, b.Opened w package staging place w₁ →
    package.hasCompiledSource = true →
      Receives staging place projectFilenames (b.runner (b.compiler package staging) w₁.disk).2
  | .archive => ∀ package staging place w₁, b.Opened w package staging place w₁ →
    ∀ archive opened place', b.archiving? w = some (archive, opened) →
      opened.find true staging = .ok (place', .directory) → opened.Avoids archive place'

/-- A build with the standard strategies, on disks in order, into whose archive nothing gets in any
way but the given ones. -/
structure Steady [Interpreter] (b : Build) (w : World) (leaks : List Leak) : Prop where
  wellFormed : w.disk.WellFormed
  standard : b.strategies = InstallStrategy.standard
  sound : ∀ call ∈ b.callsMade w, (b.runner call.command call.disk).2.Sound
  tight : ∀ leak ∉ leaks, b.Tight w leak

/-- The tools of the two builds do the same to the staging directories: call by call, where these
hold the same tree before they do so after. -/
def SameChanges [Interpreter] (b : Build) (w : World) (staging : Path) (b' : Build) (w' : World)
    (staging' : Path) : Prop :=
  ∀ calls ∈ (b.callsMade w).zip (b'.callsMade w'),
    SameDirectory calls.1.disk staging calls.2.disk staging' →
    SameDirectory (b.runner calls.1.command calls.1.disk).2 staging
      (b'.runner calls.2.command calls.2.disk).2 staging'

/-- Both builds give artifacts, their projects are the same in what is packaged, their releases are
the same, and their tools do the same to the staging directories. -/
structure Paired [Interpreter] (b : Build) (w : World) (artifact : Artifact) (final : World)
    (b' : Build) (w' : World) (artifact' : Artifact) (final' : World) : Prop where
  same : Package.Same w.disk b.directory w'.disk b'.directory
  reference : b'.settings.releaseReference = b.settings.releaseReference
  runs : b.run.perform w = (.ok artifact, final)
  runs' : b'.run.perform w' = (.ok artifact', final')
  changes : SameChanges b w artifact.staging b' w' artifact'.staging

/-- How the archive of an artifact has come about: the staging directory was made for the package,
compiled into, filled with the files of the project, left to the package manager, and packed. -/
structure Course [Interpreter] (b : Build) (w : World) (artifact : Artifact) (built : Disk)
    (package : Package) (place : Place) (w₁ : World) (strategy : InstallStrategy) (last : Disk) :
    Prop where
  opened : b.Opened w package artifact.staging place w₁
  site : Site artifact.staging place (b.discovered w)
  made : w₁.disk = (b.discovered w).put place .directory
  compiles : CompilesInto b.directory artifact.staging place ((b.discovered w).put place .directory)
    (b.compiled package artifact.staging w₁.disk)
  select : InstallStrategy.select InstallStrategy.standard package.lockConvention = .ok strategy
  filled : b.Filled artifact.staging place strategy
    (b.compiled package artifact.staging w₁.disk) last
  calls : b.callsMade w = b.compilerCalls package artifact.staging w₁.disk ++
    [⟨installer artifact.staging strategy, last⟩]
  packed : ∀ place',
    (b.runner (installer artifact.staging strategy) last).2.find true artifact.staging =
      .ok (place', .directory) →
    ∃ tree, tree.Sound ∧
      SameTree (b.runner (installer artifact.staging strategy) last).2 place' tree place' ∧
      built.read artifact.archive =
        .ok (.archive ((Archive.membersOf tree place').map Archive.stored))

/-- What has been packed from a staging directory that the archive keeps clear of outlasts the
directory. -/
theorem packed_of_clear [Interpreter] {b : Build} {staging archive : Path} {place : Place}
    {w packed left : World} (hsound : w.disk.Sound)
    (hfound : w.disk.find true staging = .ok (place, .directory)) (hnames : archive.names ≠ [])
    (hclear : (w.disk.makeDirectories true archive.parent).2.Avoids archive place)
    (hpack : (Archive.pack staging archive).perform w = (.ok (), packed))
    (hleft : left.disk = packed.disk) :
    ∃ tree, tree.Sound ∧ SameTree w.disk place tree place ∧
      ((b.cleanUp staging).perform left).2.disk.read archive =
        .ok (.archive ((Archive.membersOf tree place).map Archive.stored)) := by
  obtain ⟨hfound', hextended, tree, target, written, htree, hsame, hlocated, hshown⟩ :=
    tree_of_pack hsound hfound hnames hclear hpack
  refine ⟨tree, htree, hsame, ?_⟩
  have hroot : place ≠ [] := by
    rintro rfl
    exact (hclear target hlocated).2 target (Disk.mem_sharers_self _ _) List.nil_prefix
  rw [← hleft] at hfound'
  have henters : Enters left.disk staging place :=
    ⟨(Disk.walk_of_locate (Disk.find_eq_ok.1 hfound').1).2, (Disk.find_eq_ok.1 hfound').2⟩
  exact read_of_elsewhere hroot hclear hlocated hextended hshown fun p hp => by
    rw [cleanUp_elsewhere (b := b) henters hp, hleft]

/-- A steady build that gives an artifact has taken this course. -/
theorem course_of_run [Interpreter] {b : Build} {w final : World} {artifact : Artifact}
    (hsteady : b.Steady w []) (hrun : b.run.perform w = (.ok artifact, final)) :
    ∃ package place w₁ strategy last,
      b.Course w artifact final.disk package place w₁ strategy last := by
  rcases hprepare : b.prepare.perform w with ⟨e | ⟨package, staging⟩, w₁⟩
  · rw [perform_run_of_error hprepare] at hrun
    cases hrun
  obtain ⟨-, houtcome, rfl⟩ := run_eq_ok hprepare hrun
  obtain ⟨place, hopened, hsite, hdisk, hcalls⟩ := opened_of_prepare hsteady.wellFormed hprepare
  have hcompiled := compilesInto_compiled hsite hdisk fun hsource =>
    ⟨hsteady.tight .project List.not_mem_nil _ _ _ _ hopened hsource,
      hsteady.tight .staging List.not_mem_nil _ _ _ _ hopened hsource⟩
  obtain ⟨version, w₂, packed, hfurnish, hpack, rfl, hleft⟩ := assemble_ok (Prod.ext houtcome rfl)
  obtain ⟨-, strategy, last, hselect, hfilled, hcalled, hinstalled⟩ :=
    furnish_ok hsteady.standard hcompiled.receives hfurnish
  have hmade : b.callsMade w = b.compilerCalls package staging w₁.disk ++
      [⟨installer staging strategy, last⟩] := by
    refine callsMade_of_prepare hprepare hcalls ?_
    rw [hfurnish, hcalled, List.append_assoc]
  have harchiving : b.archiving? w = some (b.archivePath package.name,
      (w₂.disk.makeDirectories true (b.archivePath package.name).parent).2) := by
    rw [archiving?, hprepare]
    dsimp only
    rw [hfurnish]
  refine ⟨package, place, w₁, strategy, last, hopened, hsite, hdisk, hcompiled, hselect, hfilled,
    hmade, fun place' hfound => ?_⟩
  have hsound := hsteady.sound _ (by rw [hmade]; exact List.mem_append_right _ List.mem_cons_self)
  rw [← hinstalled] at hfound hsound ⊢
  have hgrown := Disk.makeDirectories_grown hsound.toWellFormed true
    (b.archivePath package.name).parent
  have hclear := hsteady.tight .archive List.not_mem_nil _ _ _ _ hopened _ _ place' harchiving
    (Disk.find_directory_of_extended hgrown.extended hfound)
  have hnames : (b.archivePath package.name).names ≠ [] := by
    obtain ⟨names, last, heq⟩ := b.archivePath_names package.name
    simp [heq]
  exact packed_of_clear (w := w₂.announced .archive) hsound hfound hnames hclear hpack hleft

/-- The files that say what is packaged are found as at the beginning when the package is
discovered. -/
theorem Steady.find_discovered [Interpreter] {b : Build} {w w₁ : World} {package : Package}
    {staging : Path} (h : b.Steady w [])
    (hprepare : b.prepare.perform w = (.ok (package, staging), w₁)) {name : Text}
    (hname : name ∈ Package.filenames) :
    (b.discovered w).find true (b.directory.child name) =
      w.disk.find true (b.directory.child name) := by
  obtain ⟨types, _, hgenerated, -⟩ := prepare_site h.wellFormed hprepare
  exact h.tight .declarations List.not_mem_nil types hgenerated.located name hname _
    hgenerated.view

namespace Course

variable [Interpreter] {b : Build} {w w₁ : World} {artifact : Artifact} {built : Disk}
    {package : Package} {place : Place} {strategy : InstallStrategy} {last : Disk}
    (h : b.Course w artifact built package place w₁ strategy last) include h

/-- A path that leads into the staging directory leads to it, since the path was given before. -/
theorem found {disk : Disk} (henters : Enters disk artifact.staging place) :
    disk.find true artifact.staging = .ok (place, .directory) :=
  (Disk.enters_iff_find (Disk.walk_of_locate (Disk.find_eq_ok.1 h.opened.found).1).1).1 henters

/-- The path of the staging directory leads to it when the sources have been compiled. -/
theorem found_compiled : (b.compiled package artifact.staging w₁.disk).find true artifact.staging =
    .ok (place, .directory) :=
  h.found h.compiles.receives.enters

/-- The path of the staging directory leads to it when the package manager is called. -/
theorem found_last : last.find true artifact.staging = .ok (place, .directory) :=
  h.found (handedOver_of_filled h.site h.compiles
    (installsWith_of_discover h.opened.discover h.select) h.filled).enters

/-- The lock file of the strategy has a known name. -/
theorem lockFilenames : ∀ name ∈ strategy.lockFilename, name ∈ lockFilenames :=
  (installsWith_of_discover h.opened.discover h.select).lockFilename

end Course

section Courses

variable [Interpreter] {b b' : Build} {w w' w₁ w₁' : World} {artifact artifact' : Artifact}
    {built built' : Disk} {package package' : Package} {place place' : Place}
    {strategy strategy' : InstallStrategy} {last last' : Disk}
    (h : b.Course w artifact built package place w₁ strategy last)
    (h' : b'.Course w' artifact' built' package' place' w₁' strategy' last') include h h'

/-- Projects that are the same have packages that are compiled and installed in the same way. -/
theorem same_package
    (hsame : Package.Same (b.discovered w) b.directory (b'.discovered w') b'.directory) :
    package'.hasCompiledSource = package.hasCompiledSource ∧ strategy' = strategy := by
  obtain ⟨-, -, -, hsource, hconvention⟩ := Package.discover_ok h.opened.discover
  obtain ⟨-, -, -, hsource', hconvention'⟩ := Package.discover_ok h'.opened.discover
  obtain ⟨found, hfound, hfound'⟩ := hsame.source
  obtain ⟨convention, hlock, hlock', -⟩ := hsame.lock
  rw [hfound] at hsource
  rw [hfound'] at hsource'
  rw [hlock] at hconvention
  rw [hlock'] at hconvention'
  have hselect := h.select
  have hselect' := h'.select
  rw [← Except.ok.inj hconvention] at hselect
  rw [← Except.ok.inj hconvention', hselect] at hselect'
  exact ⟨(Except.ok.inj hsource').symm.trans (Except.ok.inj hsource),
    (Except.ok.inj hselect').symm⟩

/-- Files of the projects with the same content have it still when the sources have been
compiled. -/
theorem same_compiled {name : Text} (hname : name ∈ projectFilenames)
    (hsame : (b.discovered w).SameContent (b.directory.child name) (b'.discovered w')
      (b'.directory.child name)) :
    (b.compiled package artifact.staging w₁.disk).SameContent (b.directory.child name)
      (b'.compiled package' artifact'.staging w₁'.disk) (b'.directory.child name) := by
  obtain ⟨content, hread, hread'⟩ := hsame
  exact ⟨content, read_of_discovered h.site h.compiles hname hread,
    read_of_discovered h'.site h'.compiles hname hread'⟩

/-- The staging directories are the same when they have been made. -/
theorem sameTree_opened : SameTree w₁.disk place w₁'.disk place' :=
  .of_empty (h.made ▸ h.site.staged.wellFormed) (h'.made ▸ h'.site.staged.wellFormed)
    (Disk.find_eq_ok.1 h.opened.found).2 (Disk.find_eq_ok.1 h'.opened.found).2 h.opened.empty
    h'.opened.empty

/-- The staging directories are the same when the sources have been compiled. -/
theorem sameTree_compiled (hsource : package'.hasCompiledSource = package.hasCompiledSource)
    (hchanges : SameChanges b w artifact.staging b' w' artifact'.staging) :
    SameTree (b.compiled package artifact.staging w₁.disk) place
      (b'.compiled package' artifact'.staging w₁'.disk) place' := by
  have hopened := sameTree_opened h h'
  have hfound := h.found_compiled
  have hfound' := h'.found_compiled
  rcases hcompiled : package.hasCompiledSource with _ | _
  · simpa only [compiled, hsource, hcompiled, Bool.false_eq_true, if_false] using hopened
  · -- The compilers are called first, on the staging directories as they have been made.
    have hcall := hchanges (⟨b.compiler package artifact.staging, w₁.disk⟩,
      ⟨b'.compiler package' artifact'.staging, w₁'.disk⟩) (by
        rw [h.calls, h'.calls]
        simp [compilerCalls, hsource, hcompiled])
    have hdone := hcall ⟨place, place', Disk.find_through h.opened.found,
      Disk.find_through h'.opened.found, hopened⟩
    simp only [compiled, hsource, hcompiled, if_true] at hfound hfound' ⊢
    exact hdone.tree hfound hfound'

/-- The staging directories are the same when the package managers have been called. -/
theorem sameDirectory_installed
    (hsource : package'.hasCompiledSource = package.hasCompiledSource)
    (hchanges : SameChanges b w artifact.staging b' w' artifact'.staging)
    (hlast : SameTree last place last' place') :
    SameDirectory (b.runner (installer artifact.staging strategy) last).2 artifact.staging
      (b'.runner (installer artifact'.staging strategy') last').2 artifact'.staging := by
  refine hchanges (⟨installer artifact.staging strategy, last⟩,
    ⟨installer artifact'.staging strategy', last'⟩) ?_
    ⟨place, place', h.found_last, h'.found_last, hlast⟩
  rw [h.calls, h'.calls, List.zip_append (by simp [compilerCalls, hsource]; split <;> rfl)]
  simp

end Courses

/-- Steady builds of projects that are the same in what is packaged make archives with the same
members. -/
theorem run_packs_same [Interpreter] {b b' : Build} {w w' final final' : World}
    {artifact artifact' : Artifact} (hpaired : Paired b w artifact final b' w' artifact' final')
    (hsteady : b.Steady w []) (hsteady' : b'.Steady w' []) :
    ∃ members, final.disk.read artifact.archive = .ok (.archive members) ∧
      final'.disk.read artifact'.archive = .ok (.archive members) := by
  obtain ⟨hsame, hreference, hrun, hrun', hchanges⟩ := hpaired
  obtain ⟨package, place, w₁, strategy, last, h⟩ := course_of_run hsteady hrun
  obtain ⟨package', place', w₁', strategy', last', h'⟩ := course_of_run hsteady' hrun'
  have hdiscovered := hsame.congr (fun _ => hsteady.find_discovered h.opened.prepare)
    fun _ => hsteady'.find_discovered h'.opened.prepare
  obtain ⟨hsource, hstrategy⟩ := same_package h h' hdiscovered
  -- What is put on top of what the compilers have left is the same.
  have hlast : SameTree last place last' place' := by
    have hfilled := hstrategy ▸ h'.filled
    refine sameTree_of_filled hreference h.lockFilenames
      (same_compiled h h' (by simp [projectFilenames]) hdiscovered.package)
      (same_compiled h h' (by simp [projectFilenames]) hdiscovered.manifest) (fun name hname => ?_)
      (staysOut_of_compiled h.site h.compiles) (staysOut_of_compiled h'.site h'.compiles) h.filled
      hfilled (sameTree_compiled h h' hsource hchanges)
    obtain ⟨-, -, -, -, hfound⟩ := Package.discover_ok h.opened.discover
    obtain ⟨convention, hconvention, -, hlock⟩ := hdiscovered.lock
    rw [hfound] at hconvention
    obtain rfl := Except.ok.inj hconvention
    rw [Package.lockFilename_of_select h.select] at hname
    refine same_compiled h h' (lockFilenames_subset (h.lockFilenames name ?_)) (hlock name hname)
    rw [Package.lockFilename_of_select h.select]
    exact hname
  obtain ⟨p, p', hfound, hfound', hinstalled⟩ := sameDirectory_installed h h' hsource hchanges hlast
  obtain ⟨tree, htree, hpacked, hread⟩ := h.packed p hfound
  obtain ⟨tree', htree', hpacked', hread'⟩ := h'.packed p' hfound'
  refine ⟨_, hread, ?_⟩
  rw [hread', Archive.membersOf_congr ((hpacked.symm.trans hinstalled).trans hpacked')
    htree.toOrderly htree'.toOrderly]

/-! ## Small projects -/

/-- Whether nothing gets into the archive of a build in the given way. -/
def isTight [Interpreter] (b : Build) (w : World) : Leak → Bool
  | .declarations =>
    match w.disk.locate false (b.directory.child declarationFilename) with
    | .ok types => Package.filenames.all fun name => w.disk.isStraight (b.directory.child name) &&
      !types.isPrefixOf (Disk.readNames (b.directory.child name))
    | .error _ => true
  | .project =>
    match b.prepare.perform w with
    | (.ok (package, staging), w₁) => !package.hasCompiledSource || projectFilenames.all fun name =>
      isKept w₁.disk (b.runner (b.compiler package staging) w₁.disk).2 (b.directory.child name)
    | (.error _, _) => true
  | .staging =>
    match b.prepare.perform w with
    | (.ok (package, staging), w₁) => !package.hasCompiledSource ||
      match w₁.disk.find false staging with
      | .ok (place, _) =>
        isReceiving staging place (b.runner (b.compiler package staging) w₁.disk).2
      | .error _ => true
    | (.error _, _) => true
  | .archive =>
    match b.prepare.perform w, b.archiving? w with
    | (.ok (_, staging), _), some (archive, opened) =>
      match opened.find true staging with
      | .ok (place, _) => opened.isAvoiding archive place
      | .error _ => true
    | _, _ => true

/-- A build that passes the check is tight. -/
theorem tight_of_check [Interpreter] {b : Build} {w : World} {leak : Leak}
    (h : b.isTight w leak = true) :
    b.Tight w leak := by
  unfold isTight at h
  cases leak with
  | declarations =>
    intro types hlocate name hname
    rw [hlocate] at h
    have hfine := List.all_eq_true.1 h name hname
    rw [Bool.and_eq_true, Bool.not_eq_true'] at hfine
    refine (Disk.straight_of_check hfine.1).skirts fun hprefix => ?_
    rw [List.isPrefixOf_iff_prefix.2 hprefix] at hfine
    cases hfine.2
  | project =>
    intro package staging place w₁ hopened hsource name hname
    simp only [hopened.prepare, hsource, Bool.not_true, Bool.false_or] at h
    exact find_of_check (List.all_eq_true.1 h name hname)
  | staging =>
    intro package staging place w₁ hopened hsource
    simp only [hopened.prepare, hsource, hopened.found, Bool.not_true, Bool.false_or] at h
    exact receives_of_check h
  | archive =>
    intro package staging place w₁ hopened archive opened place' harchiving hfound
    simp only [hopened.prepare, harchiving, hfound] at h
    exact Disk.avoids_of_check h

/-- Whether nothing gets into the archive of a build in any way but the given ones. -/
def isSteady [Interpreter] (b : Build) (w : World) (leaks : List Leak) : Bool :=
  w.disk.isWellFormed &&
    (b.callsMade w).all (fun call => (b.runner call.command call.disk).2.isSound) &&
    [Leak.declarations, .project, .staging, .archive].all fun leak =>
      leaks.contains leak || b.isTight w leak

/-- A build that passes the check is steady. -/
theorem steady_of_check [Interpreter] {b : Build} {w : World} {leaks : List Leak}
    (hstandard : b.strategies = InstallStrategy.standard) (h : b.isSteady w leaks = true) :
    b.Steady w leaks := by
  simp only [isSteady, Bool.and_eq_true, List.all_eq_true] at h
  obtain ⟨⟨hwf, hsound⟩, htight⟩ := h
  refine ⟨Disk.wellFormed_of_check hwf, hstandard, fun call hcall =>
    Disk.sound_of_check (hsound call hcall), fun leak hleak => tight_of_check ?_⟩
  have hfine := htight leak (by cases leak <;> simp)
  rw [Bool.or_eq_true, List.contains_iff_mem] at hfine
  exact hfine.resolve_left hleak

/-- Whether two builds can be compared whose tools do nothing on some commands. -/
def isPaired [Interpreter] (b : Build) (w : World) (b' : Build) (w' : World)
    (idle : Command → Bool) : Bool :=
  Package.isSame w.disk b.directory w'.disk b'.directory &&
    match b.run.perform w, b'.run.perform w' with
    | (.ok artifact, _), (.ok artifact', _) =>
      ((b.callsMade w).zip (b'.callsMade w')).all fun calls =>
        (idle calls.1.command && idle calls.2.command) ||
          Disk.isSameDirectory (b.runner calls.1.command calls.1.disk).2 artifact.staging
            (b'.runner calls.2.command calls.2.disk).2 artifact'.staging
    | _, _ => false

/-- Builds that pass the check can be compared. -/
theorem paired_of_check [Interpreter] {b b' : Build} {w w' : World} {idle : Command → Bool}
    (hreference : b'.settings.releaseReference = b.settings.releaseReference)
    (hidle : ∀ command disk, idle command = true → (b.runner command disk).2 = disk)
    (hidle' : ∀ command disk, idle command = true → (b'.runner command disk).2 = disk)
    (h : isPaired b w b' w' idle = true) :
    ∃ artifact final artifact' final', Paired b w artifact final b' w' artifact' final' := by
  rw [isPaired, Bool.and_eq_true] at h
  obtain ⟨hsame, h⟩ := h
  split at h
  next artifact final artifact' final' hrun hrun' =>
    refine ⟨artifact, final, artifact', final', Package.same_of_check hsame, hreference, hrun,
      hrun', fun calls hcalls hbefore => ?_⟩
    rcases Bool.or_eq_true_iff.1 (List.all_eq_true.1 h calls hcalls) with hquiet | hdone
    · rw [Bool.and_eq_true] at hquiet
      rw [hidle _ _ hquiet.1, hidle' _ _ hquiet.2]
      exact hbefore
    · exact Disk.sameDirectory_of_check hdone
  next => cases h

/-- The project of a small package with a lock file, something to compile, and other entries. -/
def cluttered (directory : Text) (others : List (List Text × Entry)) : World where
  disk :=
    { entries :=
        [([Text.ofString "t"], .directory),
         ([directory], .directory),
         ([directory, packageFilename], .file .usual smallText),
         ([directory, manifestFilename], .file .usual (.ofChars "m".toList)),
         ([directory, Package.compilerFilename], .file .usual (.ofChars "c".toList)),
         ([directory, "package-lock.json"], .file .usual (.ofChars "l".toList))] ++
        others.map fun (names, entry) => (directory :: names, entry) }

/-- Tools that make a file and a directory in the staging directory, whose name is known. -/
def making (staging : Text) : Runner := fun command disk =>
  (.ok ⟨0, []⟩, if command.args.contains "tsc" then
    disk.put [Text.ofString "t", staging, "index.js"] (.file .runnable (.ofChars "j".toList))
  else disk.put [Text.ofString "t", staging, "node_modules"] .directory)

/-- A build of the project with nothing else but a schema. -/
def tidy : Build := { small with runner := making "provider-build-a" }

/-- A build of another project with the same package in another directory, whose staging directory
has another name and is kept. -/
def messy : Build where
  settings := { directory := ⟨.single, ["q"]⟩, hostRoot := ⟨.single, ["g"]⟩, retain := true }
  runner := making "provider-build-b"
  temporaryDirectories := [⟨.single, ["t"]⟩]
  draws := ["b"]

/-- The project with nothing else but a schema. -/
def tidyWorld : World :=
  cluttered "p" [(["schema.json"], .file .usual (.ofChars "\x7b\x7d".toList))]

/-- The other project: another schema, sources, a lock file that does not count, an old archive,
installed packages and a hidden file. -/
def messyWorld : World :=
  cluttered "q"
    [(["schema.json"],
        .file .usual (.ofChars "\x7b\"resources\":\x7b\"a:b:C\":\x7b\x7d\x7d\x7d".toList)),
     (["index.ts"], .file .usual (.ofChars "s".toList)),
     (["yarn.lock"], .file .usual (.ofChars "y".toList)),
     (["dist"], .directory), (["dist", "x.tar.gz"], .file .usual (.archive [.directory "old"])),
     (["node_modules"], .directory), (["node_modules", "n"], .link "../index.ts"),
     ([".env"], .file .runnable (.ofChars "e".toList))]

/-- The two projects are packed with the same members. -/
theorem run_packs_same_small : ∃ artifact final artifact' final' members,
    tidy.run.perform tidyWorld = (.ok artifact, final) ∧
    messy.run.perform messyWorld = (.ok artifact', final') ∧
    final.disk.read artifact.archive = .ok (.archive members) ∧
    final'.disk.read artifact'.archive = .ok (.archive members) := by
  have hchecks : (isPaired tidy tidyWorld messy messyWorld (fun _ => false) &&
      tidy.isSteady tidyWorld [] && messy.isSteady messyWorld []) = true := by
    decide +kernel
  simp only [Bool.and_eq_true] at hchecks
  obtain ⟨⟨hpaired, hsteady⟩, hsteady'⟩ := hchecks
  have hreference : messy.settings.releaseReference = tidy.settings.releaseReference := rfl
  obtain ⟨artifact, final, artifact', final', hpaired⟩ :=
    paired_of_check hreference (fun _ _ h => by cases h) (fun _ _ h => by cases h) hpaired
  obtain ⟨members, hread, hread'⟩ :=
    run_packs_same hpaired (steady_of_check rfl hsteady) (steady_of_check rfl hsteady')
  exact ⟨artifact, final, artifact', final', members, hpaired.runs, hpaired.runs', hread, hread'⟩

/-! ## Archives that differ -/

/-- The bytes of a member that is a file. -/
def dataOf : Member → Bytes
  | .file _ _ content => content.data
  | _ => []

/-- Whether the archives of two builds differ in the names of their members or in what the files
hold. -/
def packsOther [Interpreter] (b : Build) (w : World) (b' : Build) (w' : World) : Bool :=
  match b.run.perform w, b'.run.perform w' with
  | (.ok artifact, final), (.ok artifact', final') =>
    match final.disk.read artifact.archive, final'.disk.read artifact'.archive with
    | .ok (.archive members), .ok (.archive members') =>
      members.map (fun m => (m.name, dataOf m)) != members'.map fun m => (m.name, dataOf m)
    | _, _ => false
  | _, _ => false

/-- Archives that pass the check have different members. -/
theorem members_ne_of_check [Interpreter] {b b' : Build} {w w' final final' : World}
    {artifact artifact' : Artifact} (h : packsOther b w b' w' = true)
    (hrun : b.run.perform w = (.ok artifact, final))
    (hrun' : b'.run.perform w' = (.ok artifact', final')) :
    ∃ members members', final.disk.read artifact.archive = .ok (.archive members) ∧
      final'.disk.read artifact'.archive = .ok (.archive members') ∧ members ≠ members' := by
  unfold packsOther at h
  rw [hrun, hrun'] at h
  dsimp only at h
  split at h
  next members members' hread hread' =>
    refine ⟨members, members', hread, hread', ?_⟩
    rintro rfl
    simp at h
  next => cases h

/-- The builds can be compared and pack different members, since something else than what is
packaged gets into their archives in the given way, and in no other. -/
def Differ [Interpreter] (leak : Leak) (b : Build) (w : World) (b' : Build) (w' : World) : Prop :=
  b.Steady w [leak] ∧ b'.Steady w' [leak] ∧
    ∃ artifact final artifact' final' members members',
      Paired b w artifact final b' w' artifact' final' ∧
      final.disk.read artifact.archive = .ok (.archive members) ∧
      final'.disk.read artifact'.archive = .ok (.archive members') ∧ members ≠ members'

/-- Builds that pass the checks differ. -/
theorem differ_of_check [Interpreter] {leak : Leak} {b b' : Build} {w w' : World}
    (idle : Command → Bool)
    (hreference : b'.settings.releaseReference = b.settings.releaseReference)
    (hstandard : b.strategies = InstallStrategy.standard)
    (hstandard' : b'.strategies = InstallStrategy.standard)
    (hidle : ∀ command disk, idle command = true →
      (b.runner command disk).2 = disk ∧ (b'.runner command disk).2 = disk)
    (h : (isPaired b w b' w' idle && b.isSteady w [leak] && b'.isSteady w' [leak] &&
      packsOther b w b' w') = true) : Differ leak b w b' w' := by
  simp only [Bool.and_eq_true] at h
  obtain ⟨⟨⟨hpaired, hsteady⟩, hsteady'⟩, hother⟩ := h
  obtain ⟨artifact, final, artifact', final', hpaired⟩ := paired_of_check hreference
    (fun command disk h => (hidle command disk h).1)
    (fun command disk h => (hidle command disk h).2) hpaired
  obtain ⟨members, members', hread, hread', hne⟩ :=
    members_ne_of_check hother hpaired.runs hpaired.runs'
  exact ⟨steady_of_check hstandard hsteady, steady_of_check hstandard' hsteady', artifact, final,
    artifact', final', members, members', hpaired, hread, hread', hne⟩

/-- Whether a command is not the compiler's. -/
def isOther (command : Command) : Bool :=
  !command.args.contains "tsc"

/-- A build of the small project with a compiler that puts an entry somewhere. -/
def putting (place : Place) (entry : Entry) : Build :=
  { small with
    runner := fun command disk =>
      (.ok ⟨0, []⟩, if isOther command then disk else disk.put place entry) }

/-- The other tools of the build do nothing. -/
theorem putting_idle (place : Place) (entry : Entry) (command : Command) (disk : Disk)
    (h : isOther command = true) : ((putting place entry).runner command disk).2 = disk := by
  simp only [putting, h, if_true]

/-- The small project with a manifest that is a link to the declarations, and a schema. -/
def declaredWorld (schema : String) : World where
  disk :=
    { entries :=
        [([Text.ofString "t"], .directory),
         ([Text.ofString "p"], .directory),
         ([Text.ofString "p", "schema.json"], .file .usual (.ofChars schema.toList)),
         ([Text.ofString "p", packageFilename], .file .usual smallText),
         ([Text.ofString "p", declarationFilename], .file .usual (.ofChars "m".toList)),
         ([Text.ofString "p", manifestFilename], .link declarationFilename)] }

/-- The small project with something to compile, and a link into the staging directory. -/
def reachingWorld : World where
  disk :=
    { entries := compiledWorld.disk.entries ++
        [([Text.ofString "q"], .link "/t/provider-build-a/extra")] }

/-- The archives of two builds differ where another schema gets in through a link to the
declarations; where a compiler has changed the manifest; where the compiler has left a link in place
of the package file, through which something else is put; and where the archive itself gets in. -/
theorem run_packs_other :
    Differ .declarations small (declaredWorld "\x7b\x7d") small
      (declaredWorld "\x7b\"resources\":\x7b\"a:b:C\":\x7b\x7d\x7d\x7d") ∧
    Differ .project small compiledWorld
      (putting [Text.ofString "p", manifestFilename] (.file .usual (.ofChars "n".toList)))
      compiledWorld ∧
    Differ .staging (putting smallStaged (.link "/q")) compiledWorld
      (putting smallStaged (.link "/q")) reachingWorld ∧
    Differ .archive (small.retaining true) smallWorld (redirecting.retaining true) smallWorld := by
  refine ⟨?declarations, ?project, ?staging, ?archive⟩
  case declarations =>
    exact differ_of_check (fun _ => true) rfl rfl rfl (fun _ _ _ => ⟨rfl, rfl⟩)
      (by decide +kernel)
  case project =>
    exact differ_of_check isOther rfl rfl rfl (fun _ _ h => ⟨rfl, putting_idle _ _ _ _ h⟩)
      (by decide +kernel)
  case staging =>
    exact differ_of_check isOther rfl rfl rfl
      (fun _ _ h => ⟨putting_idle _ _ _ _ h, putting_idle _ _ _ _ h⟩) (by decide +kernel)
  case archive =>
    exact differ_of_check (fun _ => false) rfl rfl rfl (fun _ _ h => by cases h)
      (by decide +kernel)

end Build

end ProviderKit
