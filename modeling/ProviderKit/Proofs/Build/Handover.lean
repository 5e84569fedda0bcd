import ProviderKit.Proofs.Build.StagedFiles

/-!
# What the package manager is handed

A build calls at most two tools: the compiler, where there is something to compile, and the package
manager after it. What the package manager finds in the staging directory is what the compiler left
there with the package file, the manifest and the lock file of the project on top
(`run_hands_over`), whatever files of these names the compiler has made, provided that none of them
has a second name.
-/

namespace ProviderKit

open Disk (Enters Placed Puts Receives)

/-- The two directories hold a file of the name, with one content. -/
def Disk.Agree (disk : Disk) (directory other : Path) (name : Text) : Prop :=
  ∃ content, disk.read (directory.child name) = .ok content ∧
    disk.read (other.child name) = .ok content

namespace Build

/-! ## The calls -/

/-- The command that compiles into the staging directory. -/
def compiler (b : Build) (package : Package) (staging : Path) : Command where
  program := if package.lockConvention = .distributed then "yarn" else "npx"
  args := ["tsc", "--noEmit", "false", "--outDir", staging.text]
  directory := b.directory

/-- The command that installs dependencies in the staging directory. -/
def installer (staging : Path) (strategy : InstallStrategy) : Command where
  program := strategy.program
  args := strategy.args
  directory := staging
  overrides := [("NODE_ENV", "production")]

/-- The calls of the compiler: one, on the disk that it is called on, if there is something to
compile. -/
def compilerCalls (b : Build) (package : Package) (staging : Path) (disk : Disk) : List Call :=
  if package.hasCompiledSource then [⟨b.compiler package staging, disk⟩] else []

/-- The disk that the compiler leaves, if there is something to compile. -/
def compiled (b : Build) (package : Package) (staging : Path) (disk : Disk) : Disk :=
  if package.hasCompiledSource then (b.runner (b.compiler package staging) disk).2 else disk

/-- A tool is called once, and what it leaves is the disk from then on. -/
theorem perform_tool (runner : Runner) (records : Records) (command : Command) (m : Message)
    (failure : CommandResult → Failure) (w : World) :
    let run : Run Unit := do
      Run.say m
      let result ← Run.call runner records command
      if result.succeeded then Run.say (.toolOutput result.output) else Run.fail (failure result)
    (run.perform w).2.calls = w.calls ++ [⟨command, w.disk⟩] ∧
      (run.perform w).2.disk = (runner command w.disk).2 := by
  intro run
  unfold run
  rw [Run.perform_bind_ok _ (Run.perform_say _ _)]
  rcases hcall : (Run.call runner records command).perform
    { w with messages := w.messages ++ [m] } with
    ⟨outcome, w'⟩
  have hleft : w'.calls = w.calls ++ [⟨command, w.disk⟩] ∧
      w'.disk = (runner command w.disk).2 := by
    rw [Run.perform_call] at hcall
    obtain ⟨-, rfl⟩ := Prod.mk.inj hcall
    exact ⟨rfl, rfl⟩
  rcases outcome with e | result
  · rw [Run.perform_bind_error _ hcall]
    exact hleft
  · rw [Run.perform_bind_ok _ hcall]
    split
    · exact hleft
    · exact hleft

/-- The stage of the compiler calls it. -/
theorem compileStage_left (b : Build) (package : Package) (staging : Path) (w : World) :
    let left := ((stage .compile (b.compile package staging)).perform w).2
    left.calls = w.calls ++ [⟨b.compiler package staging, w.disk⟩] ∧
      left.disk = (b.runner (b.compiler package staging) w.disk).2 := by
  intro left
  obtain ⟨hcalls, hdisk⟩ := perform_tool b.runner b.records (b.compiler package staging)
    (.info ("Compiling with " ++ (b.compiler package staging).program ++ " tsc..."))
    (fun result => .problem
      (.compileFailed (b.compiler package staging).program result.status result.output))
    (w.announced .compile)
  change ((b.compile package staging).perform (w.announced .compile)).2.calls = _ at hcalls
  change ((b.compile package staging).perform (w.announced .compile)).2.disk = _ at hdisk
  rcases hbody : (b.compile package staging).perform (w.announced .compile) with ⟨e | a, w'⟩
  all_goals rw [hbody] at hcalls hdisk
  · rw [show left = w' from congrArg Prod.snd (perform_stage_error hbody)]
    exact ⟨hcalls, hdisk⟩
  · rw [show left = w'.recorded .compile from congrArg Prod.snd (perform_stage_ok hbody)]
    exact ⟨hcalls, hdisk⟩

/-- The stage of the installation calls the package manager. -/
theorem installStage_left {b : Build} {package : Package} {strategy : InstallStrategy}
    (hselect : InstallStrategy.select b.strategies package.lockConvention = .ok strategy)
    (staging : Path) (w : World) :
    let left := ((stage .installDependencies (b.installDependencies package staging)).perform w).2
    left.calls = w.calls ++ [⟨installer staging strategy, w.disk⟩] ∧
      left.disk = (b.runner (installer staging strategy) w.disk).2 := by
  intro left
  have hstrategy : ∀ w, (b.strategy package).perform w = (.ok strategy, w) := by
    intro w
    rw [Build.strategy, Run.perform_ofExcept, orProblem_eq_ok.2 hselect]
  obtain ⟨hcalls, hdisk⟩ := perform_tool b.runner b.records (installer staging strategy)
    (.info ("Installing production dependencies with " ++ strategy.commandLine ++ "..."))
    (fun result => .problem
      (.installFailed strategy.commandLine result.status result.output))
    (w.announced .installDependencies)
  have hbody : (b.installDependencies package staging).perform
      (w.announced .installDependencies) = Run.perform (do
        Run.say (.info ("Installing production dependencies with " ++ strategy.commandLine ++
          "..."))
        let result ← Run.call b.runner b.records (installer staging strategy)
        if result.succeeded then Run.say (.toolOutput result.output)
        else Run.fail (.problem
          (.installFailed strategy.commandLine result.status result.output)))
        (w.announced .installDependencies) := by
    rw [installDependencies, Run.perform_bind_ok _ (hstrategy _)]
    rfl
  rw [← hbody] at hcalls hdisk
  rcases hrun : (b.installDependencies package staging).perform
    (w.announced .installDependencies) with ⟨e | a, w'⟩
  all_goals rw [hrun] at hcalls hdisk
  · rw [show left = w' from congrArg Prod.snd (perform_stage_error hrun)]
    exact ⟨hcalls, hdisk⟩
  · rw [show left = w'.recorded .installDependencies from congrArg Prod.snd (perform_stage_ok hrun)]
    exact ⟨hcalls, hdisk⟩

/-! ## What the package manager finds -/

/-- A file of the project that is found on the disk is nowhere in the directory at the place but
under one of the given names. -/
def StaysOut (directory : Path) (place : Place) (names : List Text) (disk : Disk) : Prop :=
  ∀ name ∈ projectFilenames, ∀ q entry, disk.find true (directory.child name) = .ok (q, entry) →
    ∀ last, q = place ++ [last] → last ∈ names

namespace StaysOut

variable {directory : Path} {place : Place} {names : List Text} {disk left : Disk}

/-- A file that is placed in the directory may have been awaited by a link of the project. -/
theorem placed (h : StaysOut directory place names disk) {name : Text} {content : Content}
    (hplaced : Placed (place ++ [name]) content disk left) :
    StaysOut directory place (name :: names) left := by
  intro file hfile q entry hfind last heq
  by_cases hlast : last = name
  · exact hlast ▸ List.mem_cons_self
  · refine List.mem_cons_of_mem _ (h file hfile q entry (hplaced.find_before hfind ?_) last heq)
    rw [heq]
    simpa using hlast

/-- A file of the project is not in the directory under another name. -/
theorem ne (h : StaysOut directory place names disk) {name : Text}
    (hname : name ∈ projectFilenames) {q : Place} {entry : Entry}
    (hfind : disk.find true (directory.child name) = .ok (q, entry)) {last : Text}
    (hlast : last ∉ names) : q ≠ place ++ [last] := by
  intro heq
  exact hlast (h name hname q entry hfind last heq)

end StaysOut

namespace PutsLock

variable {directory staging : Path} {place : Place} {disk left : Disk} {lock : Option Text}

/-- What was found is found when the lock file has been put, unless it is the lock file. -/
theorem find (h : PutsLock directory staging place disk left lock) {path : Path} {q : Place}
    {entry : Entry} (hfind : disk.find true path = .ok (q, entry))
    (hne : ∀ name ∈ lock, q ≠ place ++ [Utf8.canonical name]) :
    left.find true path = .ok (q, entry) := by
  cases h with
  | nothing hsame => rw [hsame, hfind]
  | copied _ hputs => exact hputs.placed.find hfind (hne _ rfl)

/-- The lock file is all that changes. -/
theorem view (h : PutsLock directory staging place disk left lock) {p : Place}
    (hne : ∀ name ∈ lock, p ≠ place ++ [Utf8.canonical name]) : left.get? p = disk.get? p := by
  cases h with
  | nothing hsame => rw [hsame]
  | copied _ hputs => exact hputs.placed.view p (hne _ rfl)

/-- The directory goes on receiving files. -/
theorem receives (h : PutsLock directory staging place disk left lock) {names : List Text}
    (hreceives : Receives staging place names disk) : Receives staging place names left := by
  cases h with
  | nothing hsame => exact hsame ▸ hreceives
  | copied _ hputs => exact hreceives.placed hputs.placed

/-- The lock file is that of the project, unless the one of the project was put aside for it. -/
theorem agree {name : Text} (h : PutsLock directory staging place disk left (some name))
    (hne : ∀ q entry, disk.find true (directory.child name) = .ok (q, entry) →
      q ≠ place ++ [Utf8.canonical name]) : left.Agree directory staging name := by
  cases h with
  | copied hread hputs =>
    obtain ⟨q, mode, hfind⟩ := Disk.read_eq_ok.1 hread
    obtain ⟨mode', hfound⟩ := hputs.placed.found hputs.located
    exact ⟨_, Disk.read_eq_ok.2 ⟨q, mode, hputs.placed.find hfind (hne q _ hfind)⟩,
      Disk.read_eq_ok.2 ⟨_, mode', hfound⟩⟩

end PutsLock

/-- On the last disk the package file, the manifest and the lock file of the strategy have been put
into the staging directory of the first one, in this order. -/
inductive Filled [Interpreter] (b : Build) (staging : Path) (place : Place)
    (strategy : InstallStrategy) (disk last : Disk) : Prop
  | intro {content manifest : Content} {first second : Disk}
    (hcontent : b.PackageContent disk content)
    (hpackage : Puts staging place packageFilename content disk first)
    (hread : first.read (b.directory.child manifestFilename) = .ok manifest)
    (hmanifest : Puts staging place manifestFilename manifest first second)
    (hlock : PutsLock b.directory staging place second last strategy.lockFilename)

/-- Behind the compiler a build calls nothing but the package manager, once everything that belongs
into the staging directory is there. -/
theorem rest_calls [Interpreter] {b : Build} {package : Package} {staging : Path} {place : Place}
    {w : World} (hstandard : b.strategies = InstallStrategy.standard)
    (h : Receives staging place projectFilenames w.disk) :
    let final := (Run.perform (do
      let version ← stage .resolveVersion (b.stagePackage package staging)
      stage .stageFiles (b.stageFiles package staging)
      stage .installDependencies (b.installDependencies package staging)
      pure version) w).2
    final.calls = w.calls ∨ ∃ strategy last,
      InstallStrategy.select InstallStrategy.standard package.lockConvention = .ok strategy ∧
      b.Filled staging place strategy w.disk last ∧
      final.calls = w.calls ++ [⟨installer staging strategy, last⟩] := by
  intro final
  have hunaffected : ∀ w s, Run.Same World.calls w (World.recorded w s) := fun _ _ => rfl
  -- The stages before the installation call nothing, so a failure there leaves the calls alone.
  have hversion := stage_relates sameCalls_unaffected hunaffected .resolveVersion
    (stagePackage_relates sameCalls_unaffected b package staging) w
  rcases hpackage : (stage .resolveVersion (b.stagePackage package staging)).perform w with
    ⟨e | version, w₁⟩
  all_goals rw [hpackage] at hversion
  · left
    unfold final
    rw [Run.perform_bind_error _ hpackage]
    exact hversion
  have hstaged := stage_relates sameCalls_unaffected hunaffected .stageFiles
    (stageFiles_relates sameCalls_unaffected b package staging) w₁
  rcases hfiles : (stage .stageFiles (b.stageFiles package staging)).perform w₁ with
    ⟨e | a, w₂⟩
  all_goals rw [hfiles] at hstaged
  · left
    unfold final
    rw [Run.perform_bind_ok _ hpackage, Run.perform_bind_error _ hfiles]
    exact hstaged.trans hversion
  right
  obtain ⟨v, hbody, rfl⟩ := stage_ok hpackage
  obtain ⟨content, hcontent, hputs⟩ :=
    stagePackage_ok (w := w.announced .resolveVersion) h hbody
  obtain ⟨v', hbody', rfl⟩ := stage_ok hfiles
  obtain ⟨strategy, manifest, second, hselect, hread, hputs', hlock⟩ :=
    stageFiles_ok (w := (v.recorded .resolveVersion).announced .stageFiles)
      (h.placed hputs.placed) hstandard hbody'
  refine ⟨strategy, v'.disk, hselect, .intro hcontent hputs hread hputs' hlock, ?_⟩
  have hcalls :=
    (installStage_left (hstandard.symm ▸ hselect) staging (v'.recorded .stageFiles)).1
  have hfinal : final.calls = ((stage .installDependencies
      (b.installDependencies package staging)).perform (v'.recorded .stageFiles)).2.calls := by
    unfold final
    rw [Run.perform_bind_ok _ hpackage, Run.perform_bind_ok _ hfiles]
    rcases hinstall : (stage .installDependencies
      (b.installDependencies package staging)).perform (v'.recorded .stageFiles) with ⟨e | a, w₃⟩
    · rw [Run.perform_bind_error _ hinstall]
    · rw [Run.perform_bind_ok _ hinstall, Run.perform_pure]
  rw [hfinal, hcalls, show (v'.recorded .stageFiles).calls = w.calls from hstaged.trans hversion]
  rfl

/-- A build calls the compiler if there is something to compile, and then nothing but the package
manager, once everything that belongs into the staging directory is there. -/
theorem furnish_calls [Interpreter] {b : Build} {package : Package} {staging : Path} {place : Place}
    {w : World} (hstandard : b.strategies = InstallStrategy.standard)
    (h : Receives staging place projectFilenames (b.compiled package staging w.disk)) :
    let final := ((b.furnish package staging).perform w).2
    let calls := w.calls ++ b.compilerCalls package staging w.disk
    final.calls = calls ∨ ∃ strategy last,
      InstallStrategy.select InstallStrategy.standard package.lockConvention = .ok strategy ∧
      b.Filled staging place strategy (b.compiled package staging w.disk) last ∧
      final.calls = calls ++ [⟨installer staging strategy, last⟩] := by
  unfold furnish compilerCalls
  rcases hcompiled : package.hasCompiledSource with _ | _
  · simp only [compiled, hcompiled, Bool.false_eq_true, if_false, List.append_nil] at h ⊢
    exact rest_calls hstandard h
  · simp only [compiled, hcompiled, if_true] at h ⊢
    obtain ⟨hcalls, hdisk⟩ := compileStage_left b package staging w
    rcases hcompile : (stage .compile (b.compile package staging)).perform w with ⟨e | a, w₁⟩
    all_goals
      rw [hcompile] at hcalls hdisk
      dsimp only at hcalls hdisk
    · rw [Run.perform_bind_error _ hcompile]
      exact .inl hcalls
    · rw [Run.perform_bind_ok _ hcompile, ← hcalls]
      rw [← hdisk] at h ⊢
      exact rest_calls hstandard h

/-- What a compiler may do that is called on the first disk and leaves the second one: anything, as
long as the files of the project are found as before, and the staging directory still receives the
files that are to come. -/
structure CompilesInto (directory staging : Path) (place : Place) (before after : Disk) :
    Prop where
  project : ∀ name ∈ projectFilenames,
    after.find true (directory.child name) = before.find true (directory.child name)
  receives : Receives staging place projectFilenames after

/-- How the dependencies of a project are installed, by the lock files that it has. -/
inductive InstallsWith (disk : Disk) (directory : Path) : InstallStrategy → Prop
  /-- With the lock file of npm, whatever other lock file there is. -/
  | consolidated (h : disk.isFile? (directory.child "package-lock.json") = .ok true) :
    InstallsWith disk directory ⟨"npm", ["ci"], some "package-lock.json"⟩
  /-- With the lock file of yarn alone. -/
  | distributed (h : disk.isFile? (directory.child "package-lock.json") = .ok false)
    (h' : disk.isFile? (directory.child "yarn.lock") = .ok true) :
    InstallsWith disk directory ⟨"yarn", ["install"], some "yarn.lock"⟩
  /-- Without any lock file. -/
  | unlocked (h : disk.isFile? (directory.child "package-lock.json") = .ok false)
    (h' : disk.isFile? (directory.child "yarn.lock") = .ok false) :
    InstallsWith disk directory ⟨"npm", ["install"], none⟩

/-- The names of the files that are put into the staging directory. -/
def stagedNames (strategy : InstallStrategy) : List Text :=
  packageFilename :: manifestFilename :: strategy.lockFilename.toList

/-- What the package manager is called with, for a package that was discovered on one disk and
compiled on another one. The manifest, the lock file and, unless there is a release, the package
file in the staging directory are those of the project; with a release the package file is the
project's one but for the version. Everything else is as it was when the sources had been
compiled. -/
structure HandedOver [Interpreter] (b : Build) (staging : Path) (place : Place)
    (strategy : InstallStrategy) (discovered compiled : Disk) (call : Call) : Prop where
  installs : InstallsWith discovered b.directory strategy
  command : call.command =
    { program := strategy.program, args := strategy.args, directory := staging,
      overrides := [("NODE_ENV", "production")] }
  enters : Enters call.disk staging place
  manifest : call.disk.Agree b.directory staging manifestFilename
  lock : ∀ name, strategy.lockFilename = some name → call.disk.Agree b.directory staging name
  package : b.settings.releaseReference = none →
    call.disk.Agree b.directory staging packageFilename
  released : ∀ reference, b.settings.releaseReference = some reference →
    ∃ version members, Release.version reference = .ok version ∧
      Package.load call.disk b.directory = .ok members ∧
      ∃ content, call.disk.read (staging.child packageFilename) = .ok content ∧
        Package.Holds content (Json.insertMember "version" (.text version) members)
  others : ∀ p, (∀ name ∈ stagedNames strategy, p ≠ place ++ [Utf8.canonical name]) →
    call.disk.get? p = compiled.get? p
  project : ∀ name ∈ projectFilenames, ∀ content,
    discovered.read (b.directory.child name) = .ok content →
    call.disk.read (b.directory.child name) = .ok content

/-- The strategy of a discovered package is the one for the lock files that the project has. -/
theorem installsWith_of_discover [Interpreter] {disk : Disk} {directory : Path} {package : Package}
    {strategy : InstallStrategy} (hdiscover : Package.discover disk directory = .ok package)
    (hselect : InstallStrategy.select InstallStrategy.standard package.lockConvention =
      .ok strategy) : InstallsWith disk directory strategy := by
  obtain ⟨-, -, -, -, hconvention⟩ := Package.discover_ok hdiscover
  rcases Package.lockConvention?_ok hconvention with ⟨heq, h⟩ | ⟨heq, h, h'⟩ | ⟨heq, h, h'⟩
  all_goals
    rw [heq] at hselect
    cases hselect
  · exact .consolidated h
  · exact .distributed h h'
  · exact .unlocked h h'

namespace Site

variable {staging : Path} {place : Place} {base : Disk}

/-- A staging directory that was just made is empty. -/
theorem empty (h : Site staging place base) {p : Place} (hp : place <+: p) (hne : p ≠ place) :
    (base.put place .directory).get? p = none := by
  rw [Disk.get?_put_of_ne hne]
  rcases hget : base.get? p with _ | entry
  · rfl
  · exact absurd hp (h.wellFormed.not_below_of_free h.free hget)

/-- What was found before the staging directory was made is found behind it. -/
theorem find_put (h : Site staging place base) {path : Path} {q : Place} {entry : Entry}
    (hfind : base.find true path = .ok (q, entry)) :
    (base.put place .directory).find true path = .ok (q, entry) := by
  obtain ⟨hlocate, hget⟩ := Disk.find_eq_ok.1 hfind
  have hne : q ≠ place := by
    rintro rfl
    rw [h.free] at hget
    cases hget
  refine Disk.find_eq_ok.2 ⟨?_, (Disk.get?_put_of_ne hne _ _).trans hget⟩
  refine Disk.locate_of_extended (Disk.extended_put h.free _) ?_ hlocate
  rw [hget]
  rintro ⟨⟩

/-- A staging directory that was just made receives files. -/
theorem receives (h : Site staging place base) (names : List Text) :
    Receives staging place names (base.put place .directory) := by
  have hempty : ∀ name, (base.put place .directory).get? (place ++ [name]) = none := fun name =>
    h.empty (List.prefix_append _ _) (by simp)
  have hstaged := h.staged
  refine ⟨Disk.enters_of_find (Disk.find_put_directory h.located h.free), fun name _ target => ?_,
    fun name _ => ?_, hstaged.wellFormed⟩
  · rw [hempty]
    rintro ⟨⟩
  · exact hstaged.wellFormed.sharers_of_no_file (by simp [hempty])

end Site

/-! ## From the compiler to the package manager -/

/-- The lock file of a strategy that goes by the lock files of a project has a known name. -/
theorem InstallsWith.lockFilename {disk : Disk} {directory : Path} {strategy : InstallStrategy}
    (h : InstallsWith disk directory strategy) :
    ∀ name ∈ strategy.lockFilename, name ∈ lockFilenames := by
  cases h <;> simp [lockFilenames]

/-- The files that are staged have different names. -/
theorem stagedNames_ne :
    Utf8.canonical packageFilename ≠ Utf8.canonical manifestFilename ∧
    ∀ name ∈ lockFilenames, Utf8.canonical packageFilename ≠ Utf8.canonical name ∧
      Utf8.canonical manifestFilename ≠ Utf8.canonical name := by
  decide

section Handover

variable {b : Build} {staging : Path} {place : Place} {base compiled : Disk}
  (hsite : Site staging place base)
  (hcompiled : CompilesInto b.directory staging place (base.put place .directory) compiled)

section Project

include hsite hcompiled

/-- No file of the project is in the staging directory when the sources have been compiled. -/
theorem staysOut_of_compiled : StaysOut b.directory place [] compiled := by
  intro name hname q entry hfind last heq
  rw [hcompiled.project name hname] at hfind
  have hget := (Disk.find_eq_ok.1 hfind).2
  rw [heq, hsite.empty (List.prefix_append _ _) (by simp)] at hget
  cases hget

/-- A file of the project that was there when the package was discovered is there when the sources
have been compiled. -/
theorem read_of_discovered {name : Text} (hname : name ∈ projectFilenames) {content : Content}
    (hread : base.read (b.directory.child name) = .ok content) :
    compiled.read (b.directory.child name) = .ok content := by
  obtain ⟨q, mode, hfind⟩ := Disk.read_eq_ok.1 hread
  refine Disk.read_eq_ok.2 ⟨q, mode, ?_⟩
  rw [hcompiled.project name hname]
  exact hsite.find_put hfind

end Project

variable {strategy : InstallStrategy} {content manifest : Content} {first second last : Disk}
  (hnames : ∀ name ∈ strategy.lockFilename, name ∈ lockFilenames)
  (hpackage : Puts staging place packageFilename content compiled first)
  (hread : first.read (b.directory.child manifestFilename) = .ok manifest)
  (hmanifest : Puts staging place manifestFilename manifest first second)
  (hlock : PutsLock b.directory staging place second last strategy.lockFilename)

section Kept

include hmanifest hlock

/-- What is found when the package file is staged is found in the end, unless it is a file that is
staged later. -/
theorem find_last {path : Path} {q : Place} {entry : Entry}
    (hfind : first.find true path = .ok (q, entry))
    (hq : q ≠ place ++ [Utf8.canonical manifestFilename])
    (hq' : ∀ name ∈ strategy.lockFilename, q ≠ place ++ [Utf8.canonical name]) :
    last.find true path = .ok (q, entry) :=
  hlock.find (hmanifest.placed.find hfind hq) hq'

include hnames hpackage

/-- The package file in the staging directory stays where it is put. -/
theorem find_package : ∃ mode, last.find true (staging.child packageFilename) =
    .ok (place ++ [Utf8.canonical packageFilename], .file mode content) := by
  obtain ⟨hmanifestne, hlockne⟩ := stagedNames_ne
  obtain ⟨mode, hfound⟩ := hpackage.placed.found hpackage.located
  refine ⟨mode, find_last hmanifest hlock hfound ?_ ?_⟩
  · simpa using hmanifestne
  · intro name hname
    simpa using (hlockne name (hnames name hname)).1

/-- The package file in the staging directory stays as it is put there. -/
theorem read_package : last.read (staging.child packageFilename) = .ok content := by
  obtain ⟨mode, hfound⟩ := find_package hnames hpackage hmanifest hlock
  exact Disk.read_eq_ok.2 ⟨_, mode, hfound⟩

include hsite hcompiled

omit hnames in
/-- The files of the project stay as they are when the sources have been compiled. -/
theorem read_project {name : Text} (hname : name ∈ projectFilenames) {old : Content}
    (hold : compiled.read (b.directory.child name) = .ok old) :
    last.read (b.directory.child name) = .ok old := by
  obtain ⟨q, mode, hfind⟩ := Disk.read_eq_ok.1 hold
  have hout : ∀ {last}, q ≠ place ++ [last] :=
    (staysOut_of_compiled hsite hcompiled).ne hname hfind List.not_mem_nil
  refine Disk.read_eq_ok.2 ⟨q, mode, ?_⟩
  exact find_last hmanifest hlock (hpackage.placed.find hfind hout) hout fun _ _ => hout

include hread

/-- The manifest in the staging directory is that of the project. -/
theorem agree_manifest : last.Agree b.directory staging manifestFilename := by
  obtain ⟨hmanifestne, hlockne⟩ := stagedNames_ne
  have hname : manifestFilename ∈ projectFilenames := by simp [projectFilenames]
  have hout := (staysOut_of_compiled hsite hcompiled).placed hpackage.placed
  obtain ⟨q, mode, hfind⟩ := Disk.read_eq_ok.1 hread
  obtain ⟨mode', hfound⟩ := hmanifest.placed.found hmanifest.located
  refine ⟨manifest, Disk.read_eq_ok.2 ⟨q, mode, find_last hmanifest hlock hfind ?_ ?_⟩,
    Disk.read_eq_ok.2 ⟨_, mode', hlock.find hfound ?_⟩⟩
  · exact hout.ne hname hfind (by simpa using hmanifestne.symm)
  · intro lock hlockname
    exact hout.ne hname hfind (by simpa using (hlockne lock (hnames lock hlockname)).1.symm)
  · intro lock hlockname
    simpa using (hlockne lock (hnames lock hlockname)).2

omit hread

/-- The lock file in the staging directory is that of the project. -/
theorem agree_lock {name : Text} (hname : strategy.lockFilename = some name) :
    last.Agree b.directory staging name := by
  obtain ⟨hpackagene, hmanifestne⟩ := stagedNames_ne.2 name (hnames name hname)
  have hproject := lockFilenames_subset (hnames name hname)
  have hout := ((staysOut_of_compiled hsite hcompiled).placed hpackage.placed).placed
    hmanifest.placed
  rw [hname] at hlock
  refine hlock.agree fun q entry hfind => hout.ne hproject hfind ?_
  simpa using ⟨hmanifestne.symm, hpackagene.symm⟩

end Kept

include hsite hcompiled

/-- The package manager is called with what was put into the staging directory. -/
theorem handedOver_of_filled [Interpreter] (hinstalls : InstallsWith base b.directory strategy)
    (h : b.Filled staging place strategy compiled last) :
    b.HandedOver staging place strategy base compiled ⟨installer staging strategy, last⟩ := by
  have hnames := hinstalls.lockFilename
  obtain ⟨hcontent, hpackage, hread, hmanifest, hlock⟩ := h
  have hproject : ∀ {name old}, name ∈ projectFilenames →
      compiled.read (b.directory.child name) = .ok old →
      last.read (b.directory.child name) = .ok old := fun hname hold =>
    read_project hsite hcompiled hpackage hmanifest hlock hname hold
  have hname : packageFilename ∈ projectFilenames := by simp [projectFilenames]
  have hstaged := read_package hnames hpackage hmanifest hlock
  constructor
  case installs => exact hinstalls
  case command => rfl
  case enters =>
    have hreceives := (hcompiled.receives.placed hpackage.placed).placed hmanifest.placed
    exact (hlock.receives hreceives).enters
  case manifest =>
    exact agree_manifest hsite hcompiled hnames hpackage hread hmanifest hlock
  case lock =>
    intro name hlockname
    exact agree_lock hsite hcompiled hnames hpackage hmanifest hlock hlockname
  case package =>
    intro hnone
    exact ⟨_, hproject hname (hcontent.same hnone), hstaged⟩
  case released =>
    intro reference hsome
    obtain ⟨version, members, written, bytes, hversion, hload, hwritten, hencode, rfl⟩ :=
      hcontent.released reference hsome
    obtain ⟨old, text, hold, hdecode, hjson⟩ := Package.load_eq_ok.1 hload
    refine ⟨version, members, hversion, ?_, _, hstaged, ?_⟩
    · exact Package.load_eq_ok.2 ⟨old, text, hproject hname hold, hdecode, hjson⟩
    · exact holds_packageText (Package.readable_of_load hload) hwritten hencode
  case others =>
    intro p hp
    have hlockne : ∀ name ∈ strategy.lockFilename, p ≠ place ++ [Utf8.canonical name] := by
      intro name hlockname
      exact hp name (by simp [stagedNames, Option.mem_def.1 hlockname])
    calc last.get? p
      _ = _ := hlock.view hlockne
      _ = _ := hmanifest.placed.view p (hp _ (by simp [stagedNames]))
      _ = compiled.get? p := hpackage.placed.view p (hp _ (by simp [stagedNames]))
  case project =>
    intro name hname content hread
    exact hproject hname (read_of_discovered hsite hcompiled hname hread)

end Handover

/-! ## A whole build -/

/-- The build has made its staging directory, which is empty, for the package that it has
discovered. -/
structure Opened [Interpreter] (b : Build) (w : World) (package : Package) (staging : Path)
    (place : Place) (w₁ : World) : Prop where
  prepare : b.prepare.perform w = (.ok (package, staging), w₁)
  discover : Package.discover (b.discovered w) b.directory = .ok package
  compiler : (b.discovered w).isFile? (b.directory.child Package.compilerFilename) =
    .ok package.hasCompiledSource
  found : w₁.disk.find false staging = .ok (place, .directory)
  empty : ∀ p, place <+: p → p ≠ place → w₁.disk.get? p = none

/-- The calls of a build that has its staging directory are those of the work in it. -/
theorem callsMade_of_prepare [Interpreter] {b : Build} {w w₁ : World} {package : Package}
    {staging : Path} (hprepare : b.prepare.perform w = (.ok (package, staging), w₁))
    (hcalls : w₁.calls = w.calls) {calls : List Call}
    (hfurnish : ((b.furnish package staging).perform w₁).2.calls = w₁.calls ++ calls) :
    b.callsMade w = calls := by
  rw [callsMade, perform_run_world hprepare, cleanUp_calls, assemble_calls, hfurnish, hcalls,
    List.drop_left]

/-- A build that has its staging directory has made it, empty, on the disk on which it discovered
the package. -/
theorem opened_of_prepare [Interpreter] {b : Build} {w w₁ : World} {package : Package}
    {staging : Path} (hwf : w.disk.WellFormed)
    (hprepare : b.prepare.perform w = (.ok (package, staging), w₁)) :
    ∃ place, b.Opened w package staging place w₁ ∧ Site staging place (b.discovered w) ∧
      w₁.disk = (b.discovered w).put place .directory ∧ w₁.calls = w.calls := by
  obtain ⟨_, place, -, hdiscover, hsite, hdisk, hcalls, -⟩ := prepare_site hwf hprepare
  obtain ⟨-, -, -, hsource, -⟩ := Package.discover_ok hdiscover
  refine ⟨place, ⟨hprepare, hdiscover, hsource, ?_, ?_⟩, hsite, hdisk, hcalls⟩
  · rw [hdisk]
    exact Disk.find_put_directory hsite.located hsite.free
  · rw [hdisk]
    exact fun p hp hne => hsite.empty hp hne

/-- Where there is nothing to compile, the compiler has compiled into a new staging directory. -/
theorem compilesInto_compiled {b : Build} {package : Package} {staging : Path} {place : Place}
    {base disk : Disk} (hsite : Site staging place base) (hdisk : disk = base.put place .directory)
    (hcompiler : package.hasCompiledSource = true → CompilesInto b.directory staging place disk
      (b.runner (b.compiler package staging) disk).2) :
    CompilesInto b.directory staging place (base.put place .directory)
      (b.compiled package staging disk) := by
  subst hdisk
  rw [compiled]
  split
  next htrue => exact hcompiler htrue
  next => exact ⟨fun _ _ => rfl, hsite.receives _⟩

/-- A build with the standard strategies on a well-formed disk, with a compiler that compiles into
the staging directory, calls nothing before it has that directory. There it calls the compiler just
if there is something to compile, and then at most the package manager, to which it hands over what
belongs to the project with what the compiler has left. -/
theorem run_hands_over [Interpreter] {b : Build} {w : World} (hwf : w.disk.WellFormed)
    (hstandard : b.strategies = InstallStrategy.standard)
    (hcompiler : ∀ package staging place w₁, b.Opened w package staging place w₁ →
      package.hasCompiledSource = true →
      CompilesInto b.directory staging place w₁.disk
        (b.runner (b.compiler package staging) w₁.disk).2) :
    b.callsMade w = [] ∨ ∃ package staging place w₁, b.Opened w package staging place w₁ ∧
      (b.callsMade w = b.compilerCalls package staging w₁.disk ∨ ∃ strategy call,
        b.callsMade w = b.compilerCalls package staging w₁.disk ++ [call] ∧
        b.HandedOver staging place strategy (b.discovered w)
          (b.compiled package staging w₁.disk) call) := by
  rcases hprepare : b.prepare.perform w with ⟨e | ⟨package, staging⟩, w₁⟩
  · left
    have hcalls := prepare_relates sameCalls_unaffected (fun _ _ => rfl) b w
    rw [hprepare] at hcalls
    rw [callsMade, perform_run_of_error hprepare, hcalls, List.drop_length]
  right
  obtain ⟨place, hopened, hsite, hdisk, hcalls⟩ := opened_of_prepare hwf hprepare
  refine ⟨package, staging, place, w₁, hopened, ?_⟩
  have hcompiled := compilesInto_compiled hsite hdisk (hcompiler package staging place w₁ hopened)
  rcases furnish_calls hstandard hcompiled.receives with hfurnish |
    ⟨strategy, last, hselect, hfilled, hfurnish⟩
  · exact .inl (callsMade_of_prepare hprepare hcalls hfurnish)
  · rw [List.append_assoc] at hfurnish
    have hinstalls := installsWith_of_discover hopened.discover hselect
    exact .inr ⟨strategy, _, callsMade_of_prepare hprepare hcalls hfurnish,
      handedOver_of_filled hsite hcompiled hinstalls hfilled⟩

/-! ## A compiler that makes the files itself -/

/-- The place of the package file in the staging directory of the small project. -/
def smallStaged : Place := smallManifest.dropLast ++ [packageFilename]

/-- A build of the small project with a compiler that makes a manifest. -/
def overwriting : Build :=
  { small with
    runner := fun command disk =>
      (.ok ⟨0, []⟩, if command.args.contains "tsc" then
        disk.put smallManifest (.file .usual smallText)
      else disk) }

/-- Whether the path of a file leads to the same place on two disks, or to nothing on both. -/
def isKept (before after : Disk) (path : Path) : Bool :=
  match before.find true path, after.find true path with
  | .ok (p, .file x (.bytes s)), .ok (q, .file y (.bytes t)) => p == q && x == y && s == t
  | .error fault, .error fault' => fault == fault'
  | _, _ => false

/-- A path can be checked to lead to the same. -/
theorem find_of_check {before after : Disk} {path : Path} (h : isKept before after path = true) :
    after.find true path = before.find true path := by
  rw [isKept] at h
  split at h
  next p x s q y t hbefore hafter =>
    simp only [Bool.and_eq_true, beq_iff_eq] at h
    obtain ⟨⟨rfl, rfl⟩, rfl⟩ := h
    rw [hbefore, hafter]
  next fault fault' hbefore hafter =>
    rw [beq_iff_eq] at h
    rw [hbefore, hafter, h]
  next => cases h

/-- Whether a directory receives the files of a project. -/
def isReceiving (staging : Path) (place : Place) (disk : Disk) : Bool :=
  (disk.find false staging).toOption.any (fun (p, entry) => p == place && entry.isDirectory) &&
    projectFilenames.all (fun name =>
      !(disk.get? (place ++ [Utf8.canonical name])).any Entry.isLink &&
        disk.sharers (place ++ [Utf8.canonical name]) == [place ++ [Utf8.canonical name]]) &&
    disk.isWellFormed

/-- A directory can be checked to receive files. -/
theorem receives_of_check {staging : Path} {place : Place} {disk : Disk}
    (h : isReceiving staging place disk = true) :
    Receives staging place projectFilenames disk := by
  simp only [isReceiving, Bool.and_eq_true, List.all_eq_true] at h
  obtain ⟨⟨hfound, hnames⟩, hwf⟩ := h
  refine ⟨?_, fun name hname target hlink => ?_, fun name hname => ?_, Disk.wellFormed_of_check hwf⟩
  · exact Disk.enters_of_find (Disk.find_directory_of_check hfound)
  · have hfine := (hnames name hname).1
    rw [hlink] at hfine
    cases hfine
  · exact beq_iff_eq.1 (hnames name hname).2

/-- Whether a compiler has left the files of the project alone, and a staging directory that
receives what is to come. -/
def hasCompiledInto (directory staging : Path) (place : Place) (before after : Disk) : Bool :=
  projectFilenames.all (fun name => isKept before after (directory.child name)) &&
    isReceiving staging place after

/-- A compiler can be checked to have compiled into the staging directory. -/
theorem compilesInto_of_check {directory staging : Path} {place : Place} {before after : Disk}
    (h : hasCompiledInto directory staging place before after = true) :
    CompilesInto directory staging place before after := by
  rw [hasCompiledInto, Bool.and_eq_true, List.all_eq_true] at h
  exact ⟨fun name hname => find_of_check (h.1 name hname), receives_of_check h.2⟩

/-- Whether the compiler of a build, if it is called, compiles into the staging directory. -/
def hasCompiled [Interpreter] (b : Build) (w : World) : Bool :=
  match b.prepare.perform w with
  | (.ok (package, staging), w₁) =>
    match w₁.disk.find false staging with
    | .ok (place, _) => hasCompiledInto b.directory staging place w₁.disk
        (b.runner (b.compiler package staging) w₁.disk).2
    | .error _ => true
  | (.error _, _) => true

/-- The package manager of the small project is called on the manifest of the project, although the
compiler has made one. -/
theorem run_hands_over_small : ∃ call, (overwriting.callsMade compiledWorld).getLast? = some call ∧
    call.disk.Agree overwriting.directory call.command.directory manifestFilename := by
  have hchecks : (compiledWorld.disk.isWellFormed && overwriting.hasCompiled compiledWorld &&
      (overwriting.callsMade compiledWorld).length == 2) = true := by
    rewrite [hasCompiled, callsMade]
    decide +kernel
  simp only [Bool.and_eq_true, beq_iff_eq] at hchecks
  obtain ⟨⟨hwf, hcompiled⟩, hlength⟩ := hchecks
  have hover := run_hands_over (b := overwriting) (w := compiledWorld)
    (Disk.wellFormed_of_check hwf) rfl (by
      intro package staging place w₁ hopened _
      rw [hasCompiled, hopened.prepare] at hcompiled
      dsimp only at hcompiled
      rw [hopened.found] at hcompiled
      exact compilesInto_of_check hcompiled)
  have hfew : ∀ package staging disk,
      (overwriting.compilerCalls package staging disk).length < 2 := by
    intro package staging disk
    unfold compilerCalls
    split <;> simp
  rcases hover with hnone | ⟨package, staging, place, w₁, -, hcompiler | ⟨strategy, call, hcalls,
    hhanded⟩⟩
  · rw [hnone] at hlength
    cases hlength
  · rw [hcompiler] at hlength
    exact absurd hlength (Nat.ne_of_lt (hfew _ _ _))
  · refine ⟨call, by rw [hcalls, List.getLast?_concat], ?_⟩
    rw [hhanded.command]
    exact hhanded.manifest

/-- A build of the small project with a compiler that makes a package file and gives it the
manifest's name as a second one. -/
def doubling : Build :=
  { small with
    runner := fun command disk =>
      (.ok ⟨0, []⟩, if command.args.contains "tsc" then
        (disk.put smallStaged (.file .usual smallText)).share smallStaged smallManifest
          (.file .usual smallText)
      else disk) }

/-- Whether the compiler of a build, if it is called, leaves the files of the project alone and a
well-formed disk without any link. -/
def hasStayed [Interpreter] (b : Build) (w : World) : Bool :=
  match b.prepare.perform w with
  | (.ok (package, staging), w₁) =>
    let after := (b.runner (b.compiler package staging) w₁.disk).2
    projectFilenames.all (fun name => isKept w₁.disk after (b.directory.child name)) &&
      hasNoLink after && after.isWellFormed &&
      (w₁.disk.locate false staging).toOption == some smallManifest.dropLast
  | (.error _, _) => true

/-- Whether two paths lead to files of different bytes. -/
def differ (disk : Disk) (path other : Path) : Bool :=
  match disk.read path, disk.read other with
  | .ok (.bytes s), .ok (.bytes t) => s != t
  | _, _ => false

/-- Directories with different files of one name do not agree on it. -/
theorem not_agree_of_check {disk : Disk} {directory other : Path} {name : Text}
    (h : differ disk (directory.child name) (other.child name) = true) :
    ¬ disk.Agree directory other name := by
  rintro ⟨content, hread, hread'⟩
  rw [differ, hread, hread'] at h
  split at h
  next s t hs ht =>
    cases hs
    cases ht
    simp at h
  next => cases h

/-- A compiler that makes no link and changes nothing outside the staging directory can make the
package manager find the manifest in place of the package file: by a second name. -/
theorem run_hands_over_needs_single :
    compiledWorld.disk.WellFormed ∧ doubling.strategies = InstallStrategy.standard ∧
    doubling.settings.releaseReference = none ∧
    (∀ package staging place w₁, doubling.Opened compiledWorld package staging place w₁ →
      let after := (doubling.runner (doubling.compiler package staging) w₁.disk).2
      (∀ q, ¬ (place <+: q ∧ q ≠ place) → after.get? q = w₁.disk.get? q) ∧
      (∀ name ∈ projectFilenames, after.find true (doubling.directory.child name) =
        w₁.disk.find true (doubling.directory.child name)) ∧
      (∀ p target, after.get? p ≠ some (.link target)) ∧ after.WellFormed) ∧
    ∃ call, (doubling.callsMade compiledWorld).getLast? = some call ∧
      call.command =
        { program := "npm", args := ["install"],
          directory := ⟨.single, ["t", "provider-build-a"]⟩,
          overrides := [("NODE_ENV", "production")] } ∧
      ¬ call.disk.Agree doubling.directory call.command.directory packageFilename := by
  have hchecks : (compiledWorld.disk.isWellFormed && doubling.hasStayed compiledWorld &&
      (doubling.callsMade compiledWorld).getLast?.any (fun call =>
        decide (call.command =
          { program := "npm", args := ["install"],
            directory := ⟨.single, ["t", "provider-build-a"]⟩,
            overrides := [("NODE_ENV", "production")] }) &&
        differ call.disk (doubling.directory.child packageFilename)
          (call.command.directory.child packageFilename))) = true := by
    rewrite [hasStayed, callsMade]
    decide +kernel
  simp only [Bool.and_eq_true] at hchecks
  obtain ⟨⟨hwf, hstayed⟩, hcall⟩ := hchecks
  refine ⟨Disk.wellFormed_of_check hwf, rfl, rfl, ?_, ?_⟩
  · intro package staging place w₁ hopened after
    rw [hasStayed, hopened.prepare] at hstayed
    simp only [Bool.and_eq_true, List.all_eq_true, beq_iff_eq] at hstayed
    obtain ⟨⟨⟨hkept, hlinks⟩, hwf'⟩, hplace⟩ := hstayed
    rw [(Disk.find_eq_ok.1 hopened.found).1] at hplace
    cases hplace
    refine ⟨fun q hq => ?_, fun name hname => find_of_check (hkept name hname),
      noLink_of_check hlinks, Disk.wellFormed_of_check hwf'⟩
    have hmanifest : q ≠ smallManifest := by
      rintro rfl
      exact hq ⟨List.dropLast_prefix _, by decide⟩
    have hstaged : q ≠ smallStaged := by
      rintro rfl
      exact hq ⟨List.prefix_append _ _, by decide⟩
    show (if _ then _ else _ : Disk).get? q = _
    split
    · rw [Disk.get?_share_of_ne hmanifest, Disk.get?_put_of_ne hstaged]
    · rfl
  · rcases hlast : (doubling.callsMade compiledWorld).getLast? with _ | call
    · rw [hlast] at hcall
      cases hcall
    · rw [hlast, Option.any_some, Bool.and_eq_true, decide_eq_true_eq] at hcall
      exact ⟨call, rfl, hcall.1, not_agree_of_check hcall.2⟩

end Build

end ProviderKit
