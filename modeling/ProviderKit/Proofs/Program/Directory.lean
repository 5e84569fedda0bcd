import ProviderKit.Proofs.Archive.Containment
import ProviderKit.Proofs.CommandLine.Flags
import ProviderKit.Proofs.Disk.Nameable
import ProviderKit.Proofs.Process.Ambient
import ProviderKit.Proofs.Program.Conclusion

/-!
# The directory that is given

A run that is given a directory comes to the same conclusion as the run without it that stands in
the directory, whatever its tools do (`Program.run_given_directory`). For this all paths that the
environment gives have to start at the root of the disk, no link on the way to the directory may be
too deep to be named, and there has to be a directory for temporary entries besides the one that the
run stands in (`Program.run_given_directory_otherwise`).

Where a run stands shows in what relative paths lead to and in where the programs of tools are
looked for, and in nothing else. With paths that start at the root, both are the same from
everywhere.
-/

namespace ProviderKit

/-! ## Paths that start at the root -/

/-- The text is that of a path that starts at the root. -/
def Text.StartsAtRoot (t : Text) : Prop := t.head? = some (.char '/')

instance (t : Text) : Decidable t.StartsAtRoot := inferInstanceAs (Decidable (_ = _))

namespace Text.StartsAtRoot

variable {t : Text}

/-- Its path does. -/
theorem isAbsolute (h : t.StartsAtRoot) : (Path.ofText t).isAbsolute = true := by
  obtain ⟨rest, rfl⟩ := List.head?_eq_some_iff.1 h
  exact Archive.isAbsolute_slash rest

/-- It still does without the slashes at its end. -/
theorem withoutEndSlashes (h : t.StartsAtRoot ∨ t = []) :
    (Surroundings.withoutEndSlashes t).StartsAtRoot := by
  unfold Surroundings.withoutEndSlashes
  dsimp only
  split
  · rfl
  next hstem =>
    have hprefix : (t.reverse.dropWhile (· = .char '/')).reverse <+: t := by
      rw [← List.reverse_suffix, List.reverse_reverse]
      exact List.dropWhile_suffix _
    generalize (t.reverse.dropWhile (· = .char '/')).reverse = stem at hprefix hstem ⊢
    obtain ⟨slashes, rfl⟩ := hprefix
    cases stem with
    | nil => cases hstem rfl
    | cons c stem => exact h.resolve_right (List.cons_ne_nil _ _)

/-- An entry of a directory whose path starts at the root has such a path. -/
theorem entryText (h : t.StartsAtRoot) (name : Text) :
    (ProviderKit.entryText t name).StartsAtRoot := by
  obtain ⟨rest, rfl⟩ := List.head?_eq_some_iff.1 h
  unfold ProviderKit.entryText
  rw [if_neg (by simp)]
  split <;> rfl

end Text.StartsAtRoot

/-- A path that starts at the root is the same wherever it is seen from. -/
theorem Path.join_of_isAbsolute {path : Path} (h : path.isAbsolute = true) (base : Path) :
    base.join path = path := if_pos h

/-- With one name more a path starts where it starts. -/
@[simp]
theorem Path.isAbsolute_child (path : Path) (name : Text) :
    (path.child name).isAbsolute = path.isAbsolute := rfl

namespace Environment

variable {name : Text}

/-- A variable keeps its value when another one is set. -/
theorem get?_set {other : Text} (h : other ≠ name) (value : Text) (environment : Environment) :
    (environment.set other value).get? name = environment.get? name := by
  unfold get?
  induction environment with
  | nil => rw [set, List.lookup_cons, beq_false_of_ne h.symm]
  | cons entry rest ih =>
    rw [set]
    split
    next heq => rw [List.lookup_cons, List.lookup_cons, beq_false_of_ne (heq ▸ h.symm)]
    next => rw [List.lookup_cons, List.lookup_cons, ih]

/-- A variable keeps its value when others are set on top. -/
theorem get?_overlay {overrides : Environment} (h : ∀ v ∈ overrides, v.1 ≠ name)
    (base : Environment) : (base.overlay overrides).get? name = base.get? name := by
  unfold overlay
  induction overrides generalizing base with
  | nil => rfl
  | cons v rest ih =>
    rw [List.foldl_cons, ih (fun v hv => h v (List.mem_cons_of_mem _ hv)),
      get?_set (h v List.mem_cons_self)]

end Environment

/-! ## Surroundings without relative paths -/

namespace Surroundings

/-- The variables whose values are single paths. -/
def pathVariables : List Text :=
  [homeVariable, hostVariable, "XDG_DATA_HOME"] ++ temporaryVariables

/-- All paths in the surroundings start at the root of the disk: each variable for a path is empty
or holds such a path, the search path is empty or consists of such paths, and the home that the
machine knows for the user is such a path if no variable says where it is. -/
structure IsAbsolute (s : Surroundings) : Prop where
  given : ∀ name ∈ pathVariables,
    (s.environment.get name).StartsAtRoot ∨ s.environment.get name = []
  search : ∀ path ∈ s.environment.get? searchVariable,
    path = [] ∨ ∀ element ∈ searchElements path, element.StartsAtRoot
  home : s.environment.get? homeVariable = none →
    ∀ home ∈ s.ownHome, home.StartsAtRoot ∨ home = []

/-- The same surroundings, but that the run stands at a place. -/
def standingAt (s : Surroundings) (place : Place) : Surroundings :=
  { s with workingDirectory := ⟨.single, place⟩ }

variable {s : Surroundings} {place : Place}

/-- A path that starts at the root is the same for a run that stands elsewhere. -/
theorem absolute_standingAt {path : Path} (h : path.isAbsolute = true) :
    (s.standingAt place).absolute path = s.absolute path :=
  (Path.join_of_isAbsolute h _).trans (Path.join_of_isAbsolute h _).symm

/-- So is its real path. -/
theorem resolve_standingAt [Interpreter] {path : Path} (h : path.isAbsolute = true) (disk : Disk) :
    (s.standingAt place).resolve disk path = s.resolve disk path := by
  unfold resolve
  rw [absolute_standingAt h]

/-- The home of the user of the run is given by a text that starts at the root. -/
theorem IsAbsolute.homeOf (h : s.IsAbsolute) {home : Text} (hhome : s.homeOf [] = .ok (some home)) :
    home.StartsAtRoot := by
  unfold Surroundings.homeOf at hhome
  simp only [List.isEmpty_nil, if_true] at hhome
  split at hhome
  next value hvalue =>
    cases hhome
    have hset : s.environment.get homeVariable = value := congrArg (Option.getD · []) hvalue
    exact .withoutEndSlashes (hset ▸ h.given homeVariable (by decide))
  next hunset =>
    obtain ⟨value, hvalue, rfl⟩ := Option.map_eq_some_iff.1 (Except.ok.inj hhome)
    exact .withoutEndSlashes (h.home hunset value hvalue)

/-- The home of the user is a path that starts at the root. -/
theorem IsAbsolute.isAbsolute_home (h : s.IsAbsolute) {path : Path} (hpath : s.home = .ok path) :
    path.isAbsolute = true := by
  have htilde : (Path.ofText "~").names = [[.char '~']] := by decide
  unfold Surroundings.home expandHome at hpath
  split at hpath
  next user names hroot hnames =>
    obtain ⟨rfl, rfl⟩ : user = [] ∧ names = [] := by simpa using hnames.symm.trans htilde
    obtain ⟨found, hfound, hpath⟩ := except_bind_eq_ok.1 hpath
    cases found with
    | none => cases hpath
    | some home =>
      dsimp only at hpath
      split at hpath
      · cases hpath
      · cases hpath
        exact (h.homeOf hfound).isAbsolute
  next hnot => exact absurd htilde (hnot [] [] rfl)

/-- A path that starts at the root has no tilde to be replaced. -/
theorem expandHome_of_isAbsolute {path : Path} (h : path.isAbsolute = true) :
    s.expandHome path = .ok path := by
  unfold expandHome
  split
  next hrelative _ =>
    rw [Path.isAbsolute, hrelative] at h
    cases h
  next => rfl

/-- The plugin host is the same for a run that stands elsewhere. -/
theorem IsAbsolute.resolveHost_standingAt [Interpreter] (h : s.IsAbsolute) (disk : Disk) :
    Settings.resolveHost (s.standingAt place) disk s.environment =
      Settings.resolveHost s disk s.environment := by
  have hgiven := h.given hostVariable (by decide)
  unfold Settings.resolveHost
  dsimp only
  split
  next =>
    show (s.home >>= _) = (s.home >>= _)
    rcases hhome : s.home with e | home
    · rfl
    · exact resolve_standingAt (by simp [h.isAbsolute_home hhome]) disk
  next hset =>
    have hrooted := (hgiven.resolve_right (by simpa using hset)).isAbsolute
    show (s.expandHome _ >>= _) = (s.expandHome _ >>= _)
    rw [expandHome_of_isAbsolute hrooted]
    exact resolve_standingAt hrooted disk

/-- Where the program keeps its data is a path that starts at the root. -/
theorem IsAbsolute.isAbsolute_dataDirectory (h : s.IsAbsolute) {system : Text} {path : Path}
    (hpath : s.dataDirectory system = .ok path) : path.isAbsolute = true := by
  unfold dataDirectory at hpath
  dsimp only at hpath
  split at hpath
  · split at hpath
    · rcases hhome : s.home with e | home
      · rw [hhome] at hpath
        cases hpath
      · rw [hhome] at hpath
        cases hpath
        simp [h.isAbsolute_home hhome]
    next hset =>
      cases hpath
      have hgiven := h.given "XDG_DATA_HOME" (by decide)
      simp [(hgiven.resolve_right (by simpa using hset)).isAbsolute]
  · obtain ⟨home, hhome, hpath⟩ := except_bind_eq_ok.1 hpath
    cases hpath
    simp [h.isAbsolute_home hhome]

/-- The directories that are tried for temporary entries before the one that the run stands in. -/
def namedTemporaryDirectories (s : Surroundings) : List Path :=
  let named := (temporaryVariables.map s.environment.get).filter fun t => !t.isEmpty
  (named ++ usualTemporaryDirectories).map fun t => s.absolute (.ofText t)

/-- They are the same for a run that stands elsewhere. -/
theorem IsAbsolute.namedTemporaryDirectories_standingAt (h : s.IsAbsolute) :
    (s.standingAt place).namedTemporaryDirectories = s.namedTemporaryDirectories := by
  have husual : ∀ t ∈ usualTemporaryDirectories, t.StartsAtRoot := by decide
  refine List.map_congr_left fun t ht => absolute_standingAt ?_
  obtain hnamed | ht := List.mem_append.1 ht
  · obtain ⟨hvariable, hset⟩ := List.mem_filter.1 hnamed
    obtain ⟨name, hname, rfl⟩ := List.mem_map.1 hvariable
    have hgiven := h.given name (List.mem_append_right _ hname)
    have hnonempty : s.environment.get name ≠ [] := by
      rintro hempty
      rw [show (s.standingAt place).environment.get name = [] from hempty] at hset
      cases hset
    exact (hgiven.resolve_right hnonempty).isAbsolute
  · exact (husual t ht).isAbsolute

/-- A directory for temporary entries is found before the one that the run stands in is tried, once
the declarations of the project at a place have been generated. -/
def FindsTemporary [Interpreter] (s : Surroundings) (disk : Disk) (place : Place) : Prop :=
  ∀ path left, (Build.stage .generateTypes (generate s.draws ⟨.single, place⟩)).perform { disk } =
      (.ok path, left) →
    ∃ directory ∈ s.namedTemporaryDirectories, left.disk.takesTemporary s.draws directory = true

instance [Interpreter] (disk : Disk) : Decidable (s.FindsTemporary disk place) :=
  decidable_of_iff ((match (Build.stage .generateTypes
      (generate s.draws ⟨.single, place⟩)).perform { disk } with
    | (.ok _, left) => s.namedTemporaryDirectories.any (left.disk.takesTemporary s.draws)
    | (.error _, _) => true) = true) (by
    unfold FindsTemporary
    rcases (Build.stage .generateTypes (generate s.draws ⟨.single, place⟩)).perform { disk } with
      ⟨e | path, left⟩
    · simp
    · simp)

/-- Where such a directory is found, it is the same for a run that stands elsewhere. -/
theorem IsAbsolute.find?_standingAt (h : s.IsAbsolute) {takes : Path → Bool}
    (hfound : ∃ directory ∈ s.namedTemporaryDirectories, takes directory = true) :
    (s.standingAt place).temporaryDirectories.find? takes = s.temporaryDirectories.find? takes := by
  have hsplit : ∀ t : Surroundings,
      t.temporaryDirectories = t.namedTemporaryDirectories ++ [t.workingDirectory] := fun _ => rfl
  have hsome : (s.namedTemporaryDirectories.find? takes).isSome = true :=
    List.find?_isSome.2 hfound
  obtain ⟨found, hfind⟩ := Option.isSome_iff_exists.1 hsome
  rw [hsplit, hsplit, h.namedTemporaryDirectories_standingAt, List.find?_append,
    List.find?_append, hfind]
  rfl

/-- A program without a slash in its name is found at the same place by a run that stands
elsewhere. -/
theorem IsAbsolute.findProgram_standingAt (h : s.IsAbsolute) {environment : Environment}
    (hpath : environment.get? searchVariable = s.environment.get? searchVariable) {program : Text}
    (hprogram : isPathText program = false) (disk : Disk) :
    (s.standingAt place).findProgram disk environment program =
      s.findProgram disk environment program := by
  have hsearch : s.searchPath environment = [] ∨
      ∀ element ∈ searchElements (s.searchPath environment), element.StartsAtRoot := by
    unfold searchPath
    rw [hpath]
    rcases hset : s.environment.get? searchVariable with _ | path
    · exact .inr (by decide)
    · exact h.search path hset
  -- What is tried in a directory of the search path is the same from everywhere.
  have hrunnable : ∀ element : Text, element.StartsAtRoot →
      disk.isRunnable (s.standingAt place).workingDirectory (entryText element program) =
        disk.isRunnable s.workingDirectory (entryText element program) := by
    intro element helement
    have hjoin := Path.join_of_isAbsolute (helement.entryText program).isAbsolute
    unfold Disk.isRunnable Disk.fileAt
    rw [hjoin, hjoin]
  unfold findProgram
  show disk.findProgram _ (s.searchPath environment) _ = _
  unfold Disk.findProgram
  simp only [hprogram, Bool.false_eq_true, if_false]
  split
  · rfl
  next hsome =>
    rw [← List.head?_filterMap, ← List.head?_filterMap]
    refine congrArg List.head? (List.filterMap_congr fun element helement => ?_)
    rw [hrunnable element (hsearch.resolve_left (by simpa using hsome) element helement)]

end Surroundings

/-! ## Runners that agree -/

/-- A command such as a build calls: its program has no slash in its name, and the search path is
none of the variables that are set for it. -/
structure Command.IsTool (command : Command) : Prop where
  program : isPathText command.program = false
  overrides : ∀ v ∈ command.overrides, v.1 ≠ searchVariable

/-- A machine runs the commands of a build alike for a run that stands elsewhere. -/
theorem Surroundings.IsAbsolute.runner_standingAt {s : Surroundings} (h : s.IsAbsolute)
    {place : Place} {command : Command} (hcommand : command.IsTool) (machine : Machine)
    (limit : Option TimeLimit) :
    machine.runner (s.standingAt place) s.environment limit command =
      machine.runner s s.environment limit command := by
  funext disk
  have hfind : (s.standingAt place).findProgram disk (s.environment.overlay command.overrides)
      command.program =
        s.findProgram disk (s.environment.overlay command.overrides) command.program :=
    h.findProgram_standingAt (Environment.get?_overlay hcommand.overrides s.environment)
      hcommand.program disk
  unfold Machine.runner
  simp only [hfind]

/-- It records them alike, too. -/
theorem Surroundings.IsAbsolute.records_standingAt {s : Surroundings} (h : s.IsAbsolute)
    {place : Place} {command : Command} (hcommand : command.IsTool) (machine : Machine)
    (limit : Option TimeLimit) :
    machine.records (s.standingAt place) s.environment limit command =
      machine.records s s.environment limit command := by
  funext disk
  have hfind : (s.standingAt place).findProgram disk (s.environment.overlay command.overrides)
      command.program =
        s.findProgram disk (s.environment.overlay command.overrides) command.program :=
    h.findProgram_standingAt (Environment.get?_overlay hcommand.overrides s.environment)
      hcommand.program disk
  unfold Machine.records
  simp only [hfind, h.runner_standingAt hcommand]

namespace Run

/-- Two runners that run a command alike, and record it alike, make the same call of it. -/
theorem call_congr {runner other : Runner} {records others : Records} {command : Command}
    (h : other command = runner command) (hrecords : others command = records command) :
    call other others command = call runner records command := by
  unfold call
  rw [h, hrecords]

/-- What comes behind a run counts for what the run comes to only. -/
theorem perform_bind_congr {α β : Type} {x : Run α} {f g : α → Run β} {w : World}
    (h : ∀ a w', x.perform w = (.ok a, w') → (f a).perform w' = (g a).perform w') :
    (x >>= f).perform w = (x >>= g).perform w := by
  rw [perform_bind, perform_bind]
  rcases hx : x.perform w with ⟨e | a, w'⟩
  · rfl
  · exact h a w' hx

/-- What comes behind a run counts for the results of the run only. -/
theorem bind_congr {α β : Type} {x : Run α} {f g : α → Run β}
    (h : ∀ a w w', x.perform w = (.ok a, w') → f a = g a) : (x >>= f) = (x >>= g) :=
  funext fun w => perform_bind_congr fun a w' hx => by rw [h a w w' hx]

end Run

namespace Build

variable {b : Build} {other : Runner} {others : Records} {directories : List Path}

/-- The commands of the build are run alike by another runner, and recorded alike. -/
structure RunsAlike (b : Build) (other : Runner) (others : Records) : Prop where
  runner : ∀ command : Command, command.IsTool → other command = b.runner command
  records : ∀ command : Command, command.IsTool → others command = b.records command

/-- The build with another runner and other directories for temporary entries. -/
abbrev moved (b : Build) (other : Runner) (others : Records) (directories : List Path) : Build :=
  { b with runner := other, records := others, temporaryDirectories := directories }

/-- It compiles alike. -/
theorem compile_moved (h : b.RunsAlike other others) (package : Package) (staging : Path) :
    (b.moved other others directories).compile package staging = b.compile package staging := by
  have htool : ({ program := (compileCommand package.lockConvention staging).1
                  args := (compileCommand package.lockConvention staging).2
                  directory := b.settings.directory } : Command).IsTool := by
    refine ⟨?_, nofun⟩
    unfold compileCommand
    dsimp only
    split <;> decide
  unfold compile directory
  dsimp only
  rw [Run.call_congr (h.runner _ htool) (h.records _ htool)]

/-- It installs the dependencies alike. -/
theorem installDependencies_moved (hstandard : b.strategies ⊆ InstallStrategy.standard)
    (h : b.RunsAlike other others) (package : Package) (staging : Path) :
    (b.moved other others directories).installDependencies package staging =
      b.installDependencies package staging := by
  have hprograms : ∀ entry ∈ InstallStrategy.standard, isPathText entry.2.program = false := by
    decide
  -- A strategy is selected before its command is called, so only those of the table count.
  refine Run.bind_congr fun strategy w w' hstrategy => ?_
  have hselect := (Prod.mk.inj ((Run.perform_ofExcept _ w).symm.trans hstrategy)).1
  have hmem := hstandard (InstallStrategy.mem_of_select (orProblem_eq_ok.1 hselect))
  have htool : ({ program := strategy.program, args := strategy.args, directory := staging
                  overrides := productionVariables } : Command).IsTool :=
    ⟨hprograms _ hmem, show ∀ v ∈ productionVariables, v.1 ≠ searchVariable by decide⟩
  dsimp only
  rw [Run.call_congr (h.runner _ htool) (h.records _ htool)]

/-- It runs alike if it makes its staging directory in the same directory. -/
theorem perform_run_moved [Interpreter] (hstandard : b.strategies ⊆ InstallStrategy.standard)
    (h : b.RunsAlike other others) {w : World}
    (hdirectory : ∀ types generated,
      (stage .generateTypes (generate b.draws b.directory)).perform w = (.ok types, generated) →
      (b.moved other others directories).temporaryDirectory generated.disk =
        b.temporaryDirectory generated.disk) :
    (b.moved other others directories).run.perform w = b.run.perform w := by
  have hassemble : (b.moved other others directories).assemble = b.assemble := by
    funext package staging
    unfold assemble
    rw [compile_moved h, installDependencies_moved hstandard h]
    rfl
  have hprepare : (b.moved other others directories).prepare.perform w = b.prepare.perform w := by
    unfold prepare
    refine Run.perform_bind_congr fun types generated hgenerate => ?_
    refine Run.perform_bind_congr fun package found hdiscover => ?_
    obtain ⟨-, hdisk, -⟩ := discover_ok (b := b) hdiscover
    have hmake : (b.moved other others directories).makeStaging.perform found =
        b.makeStaging.perform found := by
      unfold makeStaging
      rw [Run.perform_bind, Run.perform_bind, Run.perform_look, Run.perform_look, hdisk,
        hdirectory types generated hgenerate]
    rw [Run.perform_bind, Run.perform_bind, hmake]
  rw [run_eq, run_eq, Run.perform_bind, Run.perform_bind, hprepare, hassemble]
  rfl

end Build

/-! ## Command lines with a directory -/

namespace CommandLine

/-- The words name a task as the plain words do, and the same options but for directories; of these
the last one is given. -/
def GivesDirectory (words plain : List Text) (given : Text) : Prop :=
  ∃ options task name rest, Task.ofWord? name = some task ∧ firstEager? options = none ∧
    readGiven Switch.forAll false words = .ok (options, name :: rest) ∧
    readGiven Switch.forAll false plain =
      .ok (options.filter fun option => decide (option.switch ≠ .directory), name :: rest) ∧
    lastValue? .directory options = some given

variable {words plain rest : List Text} {given : Text} {s : Surroundings} {disk : Disk}

/-- Options that are read for a run without an option that is answered at once are those given. -/
theorem readGlobals_eq_ok {globals : Globals} {left : List Text}
    (h : readGlobals s disk words = .ok (none, globals, left)) :
    ∃ options, readGiven Switch.forAll false words = .ok (options, left) ∧
      firstEager? options = none ∧ globals = .ofGiven options := by
  unfold readGlobals at h
  rcases hread : readGiven Switch.forAll false words with fault | ⟨options, found⟩
  · rw [hread] at h
    cases h
  rw [hread] at h
  dsimp only at h
  split at h
  · cases h
  next directory heager _ =>
    rcases hcheck : checkDirectory s disk directory with refusal | ⟨⟩
    · rw [hcheck] at h
      cases h
    · rw [hcheck] at h
      cases h
      exact ⟨options, rfl, heager, rfl⟩
  next heager _ =>
    cases h
    exact ⟨options, rfl, heager, rfl⟩

/-- A directory can be given in front of all words that name a task without a directory. -/
theorem givesDirectory_front {globals : Globals} {task : Task}
    (h : Request.read s disk plain = .ok (.perform globals task rest))
    (hnone : globals.directory = none) (given : Text) :
    GivesDirectory ("-C" :: given :: plain) plain given := by
  obtain ⟨name, hglobals, hname⟩ := read_perform_iff.1 h
  obtain ⟨options, hread, heager, rfl⟩ := readGlobals_eq_ok hglobals
  have hfind : options.reverse.find? (·.switch = .directory) = none :=
    Option.map_eq_none_iff.1 hnone
  have hother : ∀ option ∈ options, option.switch ≠ .directory := by simpa using hfind
  refine ⟨⟨.directory, given⟩ :: options, task, name, rest, hname, heager, ?_, ?_, ?_⟩
  · show (readGiven Switch.forAll false plain).map _ = _
    rw [hread]
    rfl
  · rw [hread, List.filter_cons_of_neg (by simp), List.filter_eq_self.2 (by simpa using hother)]
  · rw [lastValue?, List.reverse_cons, List.find?_append, hfind]
    rfl

/-- Of words that give a directory which may be one, the same is read as of the plain words, and the
directory. -/
theorem GivesDirectory.read (h : GivesDirectory words plain given)
    (hcheck : checkDirectory s disk given = .ok ()) :
    ∃ globals task rest, globals.directory = some given ∧
      Request.read s disk words = .ok (.perform globals task rest) ∧
      ∀ t other, Request.read t other plain =
        .ok (.perform { globals with directory := none } task rest) := by
  obtain ⟨options, task, name, rest, hname, heager, hwords, hplain, hgiven⟩ := h
  refine ⟨.ofGiven options, task, rest, hgiven, read_perform_iff.2 ⟨name, ?_, hname⟩,
    fun t other => read_perform_iff.2 ⟨name, ?_, hname⟩⟩
  · unfold readGlobals
    rw [hwords]
    dsimp only [Globals.ofGiven]
    rw [heager, hgiven]
    dsimp only
    rw [hcheck]
    rfl
  · -- Without the directories all other options are given as before.
    have hstays : ∀ switch, switch ≠ .directory →
        isGiven switch (options.filter fun option => decide (option.switch ≠ .directory)) =
          isGiven switch options := by
      intro switch hswitch
      unfold isGiven
      rw [List.any_filter]
      refine congrArg options.any (funext fun option => ?_)
      by_cases heq : option.switch = switch
      · simp [heq, hswitch]
      · simp [heq]
    have hnone : lastValue? .directory
        (options.filter fun option => decide (option.switch ≠ .directory)) = none := by
      simp [lastValue?]
    have heager' : firstEager?
        (options.filter fun option => decide (option.switch ≠ .directory)) = none := by
      unfold firstEager? at heager ⊢
      rw [Option.map_eq_none_iff, List.find?_eq_none] at heager ⊢
      exact fun option hoption => heager option (List.mem_filter.1 hoption).1
    unfold readGlobals
    rw [hplain]
    dsimp only [Globals.ofGiven]
    rw [heager', hnone, hstays _ (by decide), hstays _ (by decide), hstays _ (by decide),
      hstays _ (by decide)]
    rfl

end CommandLine

/-! ## Two places to stand at -/

namespace Settings

variable {s : Surroundings} {disk : Disk} {start place : Place} {given : Text}

/-- The real path of a directory that is given is that of the place that it leads to. -/
theorem resolve_given [Interpreter] (hdisk : disk.Regular)
    (hstands : s.workingDirectory = ⟨.single, start⟩) (hstart : disk.get? start = some .directory)
    (hgiven : Disk.IsStored given) (hleads : disk.nameable.LeadsTo start given place) :
    s.resolve disk (.ofText given) = .ok ⟨.single, place⟩ := by
  unfold Surroundings.resolve Surroundings.absolute
  rw [hstands, hdisk.resolve_join hstart hgiven hleads]

/-- The settings for a directory that is given are those of a run that stands in it. -/
theorem resolve_standingAt [Interpreter] (hdisk : disk.Regular) (hs : s.IsAbsolute)
    (hstands : s.workingDirectory = ⟨.single, start⟩) (hstart : disk.get? start = some .directory)
    (hgiven : Disk.IsStored given) (hleads : disk.nameable.LeadsTo start given place)
    (retain : Bool) :
    resolve (s.standingAt place) disk none retain none =
      resolve s disk (some (.ofText given)) retain none := by
  have hthere : (s.standingAt place).resolve disk ⟨.single, place⟩ = .ok ⟨.single, place⟩ := by
    unfold Surroundings.resolve Surroundings.absolute
    rw [Path.join_of_isAbsolute rfl, hdisk.resolve_place hleads.of_nameable.directory]
  have hgoes := resolve_given hdisk hstands hstart hgiven hleads
  show ((s.standingAt place).resolve disk ⟨.single, place⟩ >>= fun directory =>
      resolveHost (s.standingAt place) disk s.environment >>= _) =
    (s.resolve disk (.ofText given) >>= fun directory =>
      resolveHost s disk s.environment >>= _)
  rw [hthere, hgoes, hs.resolveHost_standingAt]
  rfl

end Settings

/-- A directory that is given is not taken for a file. -/
theorem CommandLine.checkDirectory_of_leadsTo {s : Surroundings} {disk : Disk} {start place : Place}
    {given : Text} (hdisk : disk.Regular) (hstands : s.workingDirectory = ⟨.single, start⟩)
    (hstart : disk.get? start = some .directory) (hgiven : Disk.IsStored given)
    (hleads : disk.LeadsTo start given place) : checkDirectory s disk given = .ok () := by
  have hfile : ∃ fault, disk.fileAt ⟨.single, start⟩ given = .error fault ∧
      fault.isPathText = false := by
    have hfind := Disk.find_of_walk
      (fun name hname => (hdisk.names_join hstart hgiven name hname).1)
      (hleads.walk_join hdisk.toWellFormed (hdisk.names start _ hstart) hstart hgiven)
      hleads.directory
    unfold Disk.fileAt
    dsimp only
    split
    · exact ⟨_, rfl, rfl⟩
    · obtain hlong | hfound := hfind
      · rw [hlong]
        exact ⟨_, rfl, rfl⟩
      · rw [hfound]
        exact ⟨_, rfl, rfl⟩
  obtain ⟨fault, hfault, htext⟩ := hfile
  unfold checkDirectory
  rw [hstands, hfault]
  dsimp only
  rw [if_neg (by simp [htext])]

namespace Program

/-- The program on a machine. -/
def onMachine (emoji : Text → Option Text) (machine : Machine) (limit : Option TimeLimit)
    (s : Surroundings) (system moment : Text) : Program where
  surroundings := s
  system := system
  moment := moment
  runner base := machine.runner s base limit
  records base := machine.records s base limit
  emoji := emoji

section

variable {emoji : Text → Option Text} {machine : Machine} {limit : Option TimeLimit}
    {s : Surroundings} {system moment : Text} {place : Place}

/-- A crash is reported alike by a run that stands elsewhere. -/
theorem reportCrash_standingAt [Interpreter] (hs : s.IsAbsolute) (failure : Failure) :
    (onMachine emoji machine limit (s.standingAt place) system moment).reportCrash failure =
      (onMachine emoji machine limit s system moment).reportCrash failure := by
  have hmake : (s.standingAt place).makeDataDirectory system = s.makeDataDirectory system := by
    funext disk
    rcases hpath : s.dataDirectory system with e | path
    all_goals
      have hpath' : (s.standingAt place).dataDirectory system = _ := hpath
      unfold Surroundings.makeDataDirectory
      rw [hpath, hpath']
    dsimp only
    rw [Surroundings.absolute_standingAt (hs.isAbsolute_dataDirectory hpath)]
  have hwrite :
      (onMachine emoji machine limit (s.standingAt place) system moment).writeLog failure =
      (onMachine emoji machine limit s system moment).writeLog failure := by
    unfold writeLog onMachine
    dsimp only
    rw [hmake]
    refine Run.bind_congr fun data w w' hdata => ?_
    -- The directory for the data is found to start at the root once it has been made.
    have habsolute : data.isAbsolute = true := by
      have hmade := (Prod.mk.inj ((Run.perform_step _ w).symm.trans hdata)).1
      unfold Surroundings.makeDataDirectory at hmade
      split at hmade
      · cases hmade
      next path hpath =>
        split at hmade
        · cases hmade
          exact hs.isAbsolute_dataDirectory hpath
        · cases hmade
    rw [Surroundings.absolute_standingAt (by simp [habsolute]),
      Surroundings.absolute_standingAt (by simp [habsolute])]
  unfold reportCrash
  rw [hwrite]

/-- What a run came to is concluded alike. -/
theorem conclude_standingAt [Interpreter] (hs : s.IsAbsolute) (console : Except Failure Console)
    (outcome : Except Failure Int) (w : World) :
    (onMachine emoji machine limit (s.standingAt place) system moment).conclude console outcome w =
      (onMachine emoji machine limit s system moment).conclude console outcome w := by
  rcases outcome with failure | status
  · obtain ⟨problem, rfl⟩ | rfl | hcrash := failure.cases_crash
    · rfl
    · rfl
    · rw [conclude_crash hcrash, conclude_crash hcrash, reportCrash_standingAt hs]
  · rfl

/-- A build that stands in the directory runs its tools like one that does not. -/
theorem runsAlike_standingAt (hs : s.IsAbsolute) {settings : Settings}
    (hsettings : settings.environment = s.environment) :
    ((onMachine emoji machine limit s system moment).build settings).RunsAlike
      (machine.runner (s.standingAt place) settings.environment limit)
      (machine.records (s.standingAt place) settings.environment limit) := by
  constructor
  · intro command hcommand
    show machine.runner (s.standingAt place) settings.environment limit command =
      machine.runner s settings.environment limit command
    rw [hsettings]
    exact hs.runner_standingAt hcommand machine limit
  · intro command hcommand
    show machine.records (s.standingAt place) settings.environment limit command =
      machine.records s settings.environment limit command
    rw [hsettings]
    exact hs.records_standingAt hcommand machine limit

/-- With the same settings a build runs alike, if it finds a directory for temporary entries. -/
theorem run_standingAt [Interpreter] (hs : s.IsAbsolute) {settings : Settings}
    (hsettings : settings.environment = s.environment)
    (hdirectory : settings.directory = ⟨.single, place⟩) {disk : Disk}
    (htemporary : s.FindsTemporary disk place) :
    ((onMachine emoji machine limit (s.standingAt place) system moment).build
        settings).run.perform { disk } =
      ((onMachine emoji machine limit s system moment).build settings).run.perform { disk } := by
  refine Build.perform_run_moved (b := (onMachine emoji machine limit s system moment).build
    settings) (List.Subset.refl _) (runsAlike_standingAt hs hsettings)
      fun types generated hgenerate => ?_
  have hgenerated : (Build.stage .generateTypes
      (generate s.draws ⟨.single, place⟩)).perform { disk } = (.ok types, generated) := by
    rw [← hdirectory]
    exact hgenerate
  have hsame : (s.standingAt place).temporaryDirectories.find?
      (generated.disk.takesTemporary s.draws) =
        s.temporaryDirectories.find? (generated.disk.takesTemporary s.draws) :=
    hs.find?_standingAt (htemporary types generated hgenerated)
  exact Build.temporaryDirectory_congr hsame

/-- With the same settings a task is carried out alike. -/
theorem carryOut_standingAt [Interpreter] (hs : s.IsAbsolute) {settings : Settings}
    (hsettings : settings.environment = s.environment)
    (hdirectory : settings.directory = ⟨.single, place⟩) {disk : Disk} {task : CommandLine.Task}
    (htemporary : task ≠ .generate → s.FindsTemporary disk place) :
    ((onMachine emoji machine limit (s.standingAt place) system moment).carryOut settings
        task).perform { disk } =
      ((onMachine emoji machine limit s system moment).carryOut settings task).perform
        { disk } := by
  cases task with
  | generate => rfl
  | build =>
    unfold carryOut
    rw [Run.perform_bind, Run.perform_bind,
      run_standingAt hs hsettings hdirectory (htemporary (by decide))]
  | install =>
    unfold carryOut Build.install
    rw [Run.perform_bind, Run.perform_bind, Run.perform_bind, Run.perform_bind,
      run_standingAt hs hsettings hdirectory (htemporary (by decide))]
    rfl

/-- A task is answered alike by a run that stands in the directory that another one is given. -/
theorem answerTask_standingAt [Interpreter] {disk : Disk} {start : Place} {given : Text}
    {globals : CommandLine.Globals} (hdisk : disk.Regular) (hs : s.IsAbsolute)
    (hstands : s.workingDirectory = ⟨.single, start⟩) (hstart : disk.get? start = some .directory)
    (hgiven : Disk.IsStored given) (hleads : disk.nameable.LeadsTo start given place)
    (hglobals : globals.directory = some given) {task : CommandLine.Task}
    (htemporary : task ≠ .generate → s.FindsTemporary disk place) (rest : List Text) :
    ((onMachine emoji machine limit (s.standingAt place) system moment).answerTask
        { globals with directory := none } task rest).perform { disk } =
      ((onMachine emoji machine limit s system moment).answerTask globals task rest).perform
        { disk } := by
  -- The settings are the same, and all that is done with them starts from paths in them.
  have hsettings : Settings.resolve (s.standingAt place) disk none globals.retain none =
      Settings.resolve s disk (globals.directory.map Path.ofText) globals.retain none := by
    rw [hglobals]
    exact Settings.resolve_standingAt hdisk hs hstands hstart hgiven hleads globals.retain
  unfold answerTask settings
  rw [Run.perform_bind, Run.perform_bind, Run.perform_look, Run.perform_look]
  dsimp only [onMachine, Option.map_none]
  rw [hsettings]
  rcases hresolve : Settings.resolve s disk (globals.directory.map Path.ofText) globals.retain
    none with e | settings
  · rfl
  obtain ⟨directory, _, hreal, -, hmade⟩ := Settings.resolve_eq_ok.1
    (show Settings.resolve s disk _ _ (some s.environment) = _ from hresolve)
  have hdirectory : directory = ⟨.single, place⟩ := by
    rw [hglobals] at hreal
    exact Except.ok.inj (hreal.symm.trans
      (Settings.resolve_given hdisk hstands hstart hgiven hleads))
  dsimp only
  cases CommandLine.TaskRequest.read task rest with
  | error fault => rfl
  | ok request =>
    cases request with
    | help => rfl
    | perform retain =>
      have hcarries :
          ((onMachine emoji machine limit (s.standingAt place) system moment).carryOut
              { settings with retain := settings.retain || retain } task).perform { disk } =
            ((onMachine emoji machine limit s system moment).carryOut
              { settings with retain := settings.retain || retain } task).perform { disk } :=
        carryOut_standingAt hs (by rw [hmade]) (by rw [hmade]; exact hdirectory) htemporary
      dsimp only
      unfold onMachine at hcarries
      rw [Run.perform_bind, Run.perform_bind, hcarries]

end

/-- A command line that gives a directory, which is reached from where the run stands through links
that can be named, and the command line without it. If all paths that the environment gives start at
the root, and a task that builds finds a directory for temporary entries without falling back on the
one that the run stands in, then on every disk and every machine the run comes to the same
conclusion as the run without it that stands in the directory: the exit status, the crash if there
is one, the console, what is said, the record and the disk are the same. -/
theorem run_given_directory [Interpreter] {disk : Disk} {s : Surroundings} {start place : Place}
    {given : Text} {words plain : List Text} (hdisk : disk.Regular) (hs : s.IsAbsolute)
    (hstands : s.workingDirectory = ⟨.single, start⟩) (hstart : disk.get? start = some .directory)
    (hgiven : Disk.IsStored given) (hleads : disk.nameable.LeadsTo start given place)
    (hwords : CommandLine.GivesDirectory words plain given)
    (htemporary : ∀ globals task rest,
      CommandLine.Request.read s disk plain = .ok (.perform globals task rest) →
      task ≠ .generate → s.FindsTemporary disk place) (emoji : Text → Option Text)
    (machine : Machine) (limit : Option TimeLimit) (system moment : Text) :
    (onMachine emoji machine limit s system moment).run words disk =
      (onMachine emoji machine limit (s.standingAt place) system moment).run plain disk := by
  have hcheck := CommandLine.checkDirectory_of_leadsTo hdisk hstands hstart hgiven
    hleads.of_nameable
  obtain ⟨globals, task, rest, hglobals, hread, hplain⟩ := hwords.read hcheck
  have hread' : CommandLine.Request.read
      (onMachine emoji machine limit s system moment).surroundings disk words =
        .ok (.perform globals task rest) := hread
  have hanswer :
      ((onMachine emoji machine limit (s.standingAt place) system moment).answerTask
          { globals with directory := none } task rest).perform { disk } =
        ((onMachine emoji machine limit s system moment).answerTask globals task rest).perform
          { disk } :=
    answerTask_standingAt hdisk hs hstands hstart hgiven hleads hglobals
      (htemporary _ _ _ (hplain s disk)) rest
  unfold run
  rw [hread', hplain]
  dsimp only [Program.console, Program.answer]
  have hconsole : (onMachine emoji machine limit (s.standingAt place) system moment).consoleFor
      { globals with directory := none } =
        (onMachine emoji machine limit s system moment).consoleFor globals := rfl
  rw [hconsole]
  rcases (onMachine emoji machine limit s system moment).consoleFor globals with noConsole | shown
  · exact (conclude_standingAt hs _ _ _).symm
  · dsimp only
    rw [hanswer]
    exact (conclude_standingAt hs _ _ _).symm

/-! ## The small project from beside -/

/-- A machine on which each process ends well and does nothing. -/
def idle : Machine := fun _ _ disk => (.exited 0 [], disk)

/-- No code stands for an emoji. -/
def noEmoji : Text → Option Text := fun _ => none

/-- The small project, and beside it a directory with a tool and a link to the project. -/
def besideDisk : Disk where
  entries :=
    [([Text.ofString "b"], .directory), ([Text.ofString "b", "npm"], .file .runnable (.bytes [])),
     ([Text.ofString "b", "l"], .link "../p")] ++ Build.smallDisk.entries

/-- A run that stands in that directory. -/
def beside : Surroundings where
  environment :=
    [("HOME", "/b"), ("PATH", "/b"), ("PULUMI_HOME", "/h"), ("NO_COLOR", []), ("TMPDIR", "/t")]
  workingDirectory := ⟨.single, ["b"]⟩
  draws := ["a"]

/-- All its paths start at the root. -/
theorem isAbsolute_beside : beside.IsAbsolute := ⟨by decide, by decide, by decide⟩

/-- With the project given through dots and the link, the program builds it as if it stood there,
and the build goes well. -/
theorem run_given_directory_beside :
    besideDisk.Regular ∧ beside.IsAbsolute ∧ Disk.IsStored "../b/l" ∧
    besideDisk.nameable.LeadsTo ["b"] "../b/l" ["p"] ∧ beside.FindsTemporary besideDisk ["p"] ∧
    CommandLine.GivesDirectory ["-C", "../b/l", "build"] ["build"] "../b/l" ∧
    (onMachine noEmoji idle none beside "Linux" []).run ["-C", "../b/l", "build"] besideDisk =
      (onMachine noEmoji idle none (beside.standingAt ["p"]) "Linux" []).run ["build"] besideDisk ∧
    ((onMachine noEmoji idle none beside "Linux" []).run ["-C", "../b/l", "build"]
      besideDisk).exit =
      .ok 0 := by
  have hregular : besideDisk.Regular := Disk.regular_of_check (by decide +kernel)
  have hgiven : Disk.IsStored "../b/l" := ⟨by decide, by decide⟩
  have hleads : besideDisk.nameable.LeadsTo ["b"] "../b/l" ["p"] := ⟨by decide +kernel, rfl⟩
  have hplain : CommandLine.Request.read beside besideDisk ["build"] =
      .ok (.perform {} .build []) := rfl
  have hwords : CommandLine.GivesDirectory ["-C", "../b/l", "build"] ["build"] "../b/l" :=
    CommandLine.givesDirectory_front hplain rfl _
  have hexit : ((onMachine noEmoji idle none beside "Linux" []).run ["-C", "../b/l", "build"]
      besideDisk).exit.toOption = some 0 := by
    decide +kernel
  have htemporary : beside.FindsTemporary besideDisk ["p"] := by decide +kernel
  have hsame := run_given_directory hregular isAbsolute_beside rfl rfl hgiven hleads hwords
    (fun _ _ _ _ _ => htemporary) noEmoji idle none "Linux" []
  exact ⟨hregular, isAbsolute_beside, hgiven, hleads, htemporary, hwords, hsame,
    ok_of_toOption hexit⟩

/-! ## Where it makes a difference -/

/-- A name of as many bytes as a name may have. -/
def longName : Text := List.replicate 63 (CodePoint.char '𐀀') ++ Text.ofString "abc"

/-- The small project with a link to it, in a directory so deep that the link cannot be named, and a
link to that directory. -/
def deepDisk : Disk where
  entries :=
    (List.range 15).map (fun n => (List.replicate (n + 1) longName, .directory)) ++
    [(List.replicate 16 longName, .link "/p"),
     ([Text.ofString "s"], .link (Text.join "/" ([] :: List.replicate 15 longName))),
     ([Text.ofString "b"], .directory)] ++ Build.smallDisk.entries

/-- The way to the small project through the two links. -/
def deepWay : Text := "/s/" ++ longName

/-- Surroundings that name no directory for temporary entries. -/
def bare : Surroundings where
  environment := [("HOME", "/b"), ("PATH", "/b"), ("PULUMI_HOME", "/h"), ("NO_COLOR", [])]
  workingDirectory := ⟨.single, ["b"]⟩
  draws := ["a"]

/-- Whether a command line leaves a staging directory in the directory beside the project. -/
def leavesBeside (s : Surroundings) (words : List Text) : Bool :=
  (((onMachine noEmoji idle none s "Linux" []).run words besideDisk).world.disk.get?
    [Text.ofString "b", Text.ofString "provider-build-a"]).any Entry.isDirectory

/-- The project is reached by a short path with a link on the way that cannot be named. Standing in
the project the program writes the declarations; given the path it fails, since it takes the link
for the directory of the project. And where no directory for temporary entries is found before, the
staging directory is made where the run stands, which is not the directory that it is given. -/
theorem run_given_directory_otherwise :
    (deepDisk.Regular ∧ beside.IsAbsolute ∧ deepDisk.get? ["b"] = some .directory ∧
      Disk.IsStored deepWay ∧
      deepDisk.find true (beside.absolute (.ofText deepWay)) = .ok (["p"], .directory) ∧
      CommandLine.GivesDirectory ["-C", deepWay, "generate"] ["generate"] deepWay ∧
      ((onMachine noEmoji idle none beside "Linux" []).run ["-C", deepWay, "generate"]
        deepDisk).exit = .ok 1 ∧
      ((onMachine noEmoji idle none (beside.standingAt ["p"]) "Linux" []).run ["generate"]
        deepDisk).exit = .ok 0) ∧
    bare.IsAbsolute ∧ besideDisk.nameable.LeadsTo ["b"] "../b/l" ["p"] ∧
      CommandLine.GivesDirectory ["-C", "../b/l", "build", "--retain"] ["build", "--retain"]
        "../b/l" ∧
      leavesBeside bare ["-C", "../b/l", "build", "--retain"] = true ∧
      leavesBeside (bare.standingAt ["p"]) ["build", "--retain"] = false := by
  have hexits : ((onMachine noEmoji idle none beside "Linux" []).run ["-C", deepWay, "generate"]
        deepDisk).exit.toOption = some 1 ∧
      ((onMachine noEmoji idle none (beside.standingAt ["p"]) "Linux" []).run ["generate"]
        deepDisk).exit.toOption = some 0 := by
    decide +kernel
  have hfind : deepDisk.find true (beside.absolute (.ofText deepWay)) = .ok (["p"], .directory) :=
    Disk.find_eq_ok.2 ⟨Disk.locate_of_walk (by decide +kernel) (by decide +kernel), rfl⟩
  have hplain : CommandLine.Request.read beside deepDisk ["generate"] =
      .ok (.perform {} .generate []) := rfl
  have hretained : CommandLine.Request.read bare besideDisk ["build", "--retain"] =
      .ok (.perform {} .build ["--retain"]) := rfl
  constructor
  · exact ⟨Disk.regular_of_check (by decide +kernel), isAbsolute_beside, rfl,
      ⟨by decide +kernel, by decide +kernel⟩, hfind,
      CommandLine.givesDirectory_front hplain rfl _,
      ok_of_toOption hexits.1, ok_of_toOption hexits.2⟩
  · exact ⟨⟨by decide, by decide, by decide⟩, ⟨by decide +kernel, rfl⟩,
      CommandLine.givesDirectory_front hretained rfl _, by decide +kernel, by decide +kernel⟩

end Program

end ProviderKit
