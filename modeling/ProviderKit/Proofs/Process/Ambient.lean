import ProviderKit.Proofs.Package.Discovery
import ProviderKit.Proofs.Process.Outcome
import ProviderKit.Settings

/-!
# What of the ambient environment shows

Settings and commands can be given an environment of their own, in place of the ambient one that the
run was started in. Two runs that differ in the ambient environment only then have the same
settings, except that the plugin host may be looked for at the home of the user, and where that is
the ambient environment says (`Environment.FixesHost`, `resolve_explicit_home`). Their commands
start the same processes with the same variables as long as the environment sets a search path
(`resolve_explicit`).
-/

namespace ProviderKit

/-- The path begins with the home of the user of the run. -/
def Path.IsAtHome (p : Path) : Prop := p.root = .relative ∧ p.names.head? = some "~"

instance (p : Path) : Decidable p.IsAtHome := inferInstanceAs (Decidable (_ ∧ _))

/-- The variable that says where the user of the run is at home. -/
def homeVariable : Text := "HOME"

/-- An environment says where the plugin host is, and not as a place at the home of the user. -/
def Environment.FixesHost (environment : Environment) : Prop :=
  environment.get hostVariable ≠ [] ∧ ¬ (Path.ofText (environment.get hostVariable)).IsAtHome

instance (environment : Environment) : Decidable environment.FixesHost :=
  inferInstanceAs (Decidable (_ ∧ _))

namespace Surroundings

/-- The same surroundings with another ambient environment. -/
def withAmbient (s : Surroundings) (ambient : Environment) : Surroundings :=
  { s with environment := ambient }

section

variable {s : Surroundings} {ambient : Environment}

/-- A real path does not depend on the ambient environment. -/
@[simp]
theorem resolve_withAmbient [Interpreter] (disk : Disk) (path : Path) :
    (s.withAmbient ambient).resolve disk path = s.resolve disk path := rfl

/-- The home of a user who is named does not, either. -/
theorem homeOf_withAmbient {user : Text} (h : user ≠ []) :
    (s.withAmbient ambient).homeOf user = s.homeOf user := by
  have hempty : user.isEmpty = false := by simpa using h
  unfold homeOf
  rw [hempty]
  rfl

/-- Where the user of the run is at home is all that the ambient environment says about homes. -/
theorem homeOf_of_same_home
    (h : ambient.get? homeVariable = s.environment.get? homeVariable) (user : Text) :
    (s.withAmbient ambient).homeOf user = s.homeOf user := by
  have hhome : (s.withAmbient ambient).environment.get? "HOME" = s.environment.get? "HOME" := h
  unfold homeOf
  rw [hhome]
  rfl

/-- A path is expanded alike if each name that begins with a tilde stands for the same home. -/
theorem expandHome_congr {other : Surroundings} {path : Path}
    (h : ∀ user names, path.root = .relative → path.names = (.char '~' :: user) :: names →
      other.homeOf user = s.homeOf user) :
    other.expandHome path = s.expandHome path := by
  obtain ⟨root, names⟩ := path
  unfold expandHome
  dsimp only
  split
  next user rest => rw [h user rest rfl rfl]
  next => rfl

/-- A path that is not at the home of the user of the run is expanded alike in every ambient
environment. -/
theorem expandHome_withAmbient {path : Path} (h : ¬ path.IsAtHome) :
    (s.withAmbient ambient).expandHome path = s.expandHome path := by
  refine expandHome_congr fun user names hroot hnames => homeOf_withAmbient ?_
  rintro rfl
  exact h ⟨hroot, by rw [hnames]; rfl⟩

/-- With the home of the user the plugin host is the same. -/
theorem resolveHost_of_same_home [Interpreter]
    (h : ambient.get? homeVariable = s.environment.get? homeVariable) (disk : Disk)
    (given : Environment) :
    Settings.resolveHost (s.withAmbient ambient) disk given =
      Settings.resolveHost s disk given := by
  have hexpand : ∀ path, (s.withAmbient ambient).expandHome path = s.expandHome path :=
    fun path => expandHome_congr fun user _ _ _ => homeOf_of_same_home h user
  unfold Settings.resolveHost home
  simp only [hexpand, resolve_withAmbient]

/-- A plugin host that is fixed is the same in every ambient environment. -/
theorem resolveHost_of_fixesHost [Interpreter] {given : Environment} (h : given.FixesHost)
    (disk : Disk) :
    Settings.resolveHost (s.withAmbient ambient) disk given =
      Settings.resolveHost s disk given := by
  have hgiven : ¬ (given.get hostVariable).isEmpty = true := by simpa using h.1
  unfold Settings.resolveHost
  dsimp only
  rw [if_neg hgiven, if_neg hgiven, expandHome_withAmbient h.2]
  rfl

/-- A search path that the environment of a command sets is the one that is used. -/
theorem findProgram_withAmbient {environment : Environment}
    (h : environment.get? searchVariable ≠ none) (disk : Disk) (program : Text) :
    (s.withAmbient ambient).findProgram disk environment program =
      s.findProgram disk environment program := by
  obtain ⟨path, hpath⟩ := Option.ne_none_iff_exists'.1 h
  unfold findProgram searchPath
  rw [hpath]
  rfl

end

end Surroundings

namespace Settings

variable {s : Surroundings} {ambient : Environment} {disk : Disk} {directory : Option Path}
  {retain : Bool} {given : Environment}

/-- Settings for an environment of their own come from it, from the directory and from the plugin
host. -/
theorem resolve_eq_ok [Interpreter] {settings : Settings} :
    resolve s disk directory retain (some given) = .ok settings ↔
      ∃ real hostRoot, s.resolve disk (directory.getD s.workingDirectory) = .ok real ∧
        resolveHost s disk given = .ok hostRoot ∧
        settings = { directory := real, retain, releaseReference := given.get? releaseVariable,
                     hostRoot, environment := given } := by
  unfold resolve
  simp only [Option.getD_some, except_bind_eq_ok, pure, Except.pure, Except.ok.injEq]
  constructor
  · rintro ⟨real, hreal, hostRoot, hhost, rfl⟩
    exact ⟨real, hostRoot, hreal, hhost, rfl⟩
  · rintro ⟨real, hostRoot, hreal, hhost, rfl⟩
    exact ⟨real, hreal, hostRoot, hhost, rfl⟩

/-- Settings for an environment of their own are the same if the plugin host is. -/
theorem resolve_of_same_host [Interpreter]
    (h : resolveHost (s.withAmbient ambient) disk given = resolveHost s disk given) :
    resolve (s.withAmbient ambient) disk directory retain (some given) =
      resolve s disk directory retain (some given) := by
  unfold resolve
  simp only [Option.getD_some, h, Surroundings.resolve_withAmbient]
  rfl

end Settings

/-- An environment that is given explicitly, of two runs that differ in the ambient one only. Where
the user is at home in the same place, or the environment fixes the plugin host, the settings are
the same, and otherwise they are the same but for the plugin host. A command with a search path
becomes the same process, so that it ends alike on every machine, and each process has the variables
of the environment with those of its command on top. -/
theorem resolve_explicit [Interpreter] (s : Surroundings) (ambient : Environment) (disk : Disk)
    (given : Environment) :
    (∀ directory retain,
      (ambient.get? homeVariable = s.environment.get? homeVariable ∨ given.FixesHost →
        Settings.resolve (s.withAmbient ambient) disk directory retain (some given) =
          Settings.resolve s disk directory retain (some given)) ∧
      ∀ settings other, Settings.resolve s disk directory retain (some given) = .ok settings →
        Settings.resolve (s.withAmbient ambient) disk directory retain (some given) = .ok other →
        other = { settings with hostRoot := other.hostRoot }) ∧
    (∀ command : Command, (given.overlay command.overrides).get? searchVariable ≠ none →
      command.process? (s.withAmbient ambient) given disk = command.process? s given disk ∧
      ∀ (machine : Machine) (limit : Option TimeLimit),
        machine.runner (s.withAmbient ambient) given limit command disk =
          machine.runner s given limit command disk) ∧
    ∀ (command : Command) (process : Process), command.process? s given disk = some process →
      process.environment = given.overlay command.overrides := by
  refine ⟨fun directory retain => ⟨?_, ?_⟩, fun command hpath => ?_, ?_⟩
  · rintro (hhome | hfixes)
    · exact Settings.resolve_of_same_host (Surroundings.resolveHost_of_same_home hhome disk given)
    · exact Settings.resolve_of_same_host (Surroundings.resolveHost_of_fixesHost hfixes disk)
  · intro settings other h h'
    obtain ⟨real, _, hreal, -, rfl⟩ := Settings.resolve_eq_ok.1 h
    obtain ⟨real', _, hreal', -, rfl⟩ := Settings.resolve_eq_ok.1 h'
    obtain rfl : real' = real := Except.ok.inj (hreal'.symm.trans hreal)
    rfl
  · have hfind : (s.withAmbient ambient).findProgram disk (given.overlay command.overrides)
        command.program = s.findProgram disk (given.overlay command.overrides) command.program :=
      Surroundings.findProgram_withAmbient hpath disk command.program
    constructor
    · unfold Command.process?
      simp only [hfind]
    · intro machine limit
      unfold Machine.runner
      simp only [hfind]
  · intro command process h
    obtain ⟨found, -, rfl⟩ := Command.process?_eq_some h
    rfl

/-! ## Two users -/

/-- The environment of a tool: a search path, and a plugin host in a place of its own. -/
def toolVariables : Environment := [("PATH", "/b"), ("PULUMI_HOME", "/h")]

/-- A disk with a tool on it. -/
def toolDisk : Disk where
  entries :=
    [([Text.ofString "b"], .directory), ([Text.ofString "b", "npm"], .file .runnable (.bytes [])),
     ([Text.ofString "p"], .directory)]

/-- Where one user works, with variables of their own. -/
def oneUser : Surroundings where
  environment := [("HOME", "/one"), ("PATH", "/one/bin")]
  workingDirectory := ⟨.single, ["p"]⟩

/-- The variables of another user. -/
def otherUser : Environment := [("HOME", "/two"), ("PATH", "/two/bin")]

/-- Settings of which the plugin host is seen are there. -/
theorem Settings.ok_of_hostRoot {outcome : Except Failure Settings} {root : Path}
    (h : outcome.toOption.map (·.hostRoot) = some root) :
    ∃ settings, outcome = .ok settings ∧ settings.hostRoot = root := by
  cases outcome with
  | error e => cases h
  | ok settings => exact ⟨settings, rfl, Option.some.inj h⟩

/-- The tool is found for both users, and both have the same settings, with the plugin host that the
environment fixes. -/
theorem resolve_explicit_users : toolVariables.FixesHost ∧
    toolVariables.get? searchVariable ≠ none ∧
    (∃ settings, settings.hostRoot = ⟨.single, ["h"]⟩ ∧
      Settings.resolve oneUser toolDisk none false (some toolVariables) = .ok settings ∧
      Settings.resolve (oneUser.withAmbient otherUser) toolDisk none false
        (some toolVariables) = .ok settings) ∧
    ∃ process : Process, process.executable = "/b/npm" ∧ process.environment = toolVariables ∧
      (⟨"npm", [], ⟨.single, ["p"]⟩, []⟩ : Command).process? (oneUser.withAmbient otherUser)
        toolVariables toolDisk = some process := by
  obtain ⟨hsettings, hcommand, hvariables⟩ :=
    resolve_explicit oneUser otherUser toolDisk toolVariables
  have hfixes : toolVariables.FixesHost := by decide
  have hpath : toolVariables.get? searchVariable ≠ none := by decide
  refine ⟨hfixes, hpath, ?_, ?_⟩
  · have hroot : (Settings.resolve oneUser toolDisk none false (some toolVariables)).toOption.map
        (·.hostRoot) = some ⟨.single, ["h"]⟩ := by decide +kernel
    obtain ⟨settings, hresolve, hhost⟩ := Settings.ok_of_hostRoot hroot
    exact ⟨settings, hhost, hresolve, ((hsettings none false).1 (.inr hfixes)).trans hresolve⟩
  · have hexecutable : ((⟨"npm", [], ⟨.single, ["p"]⟩, []⟩ : Command).process? oneUser
        toolVariables toolDisk).map (·.executable) = some "/b/npm" := by decide +kernel
    obtain ⟨process, hprocess, hfound⟩ := Option.map_eq_some_iff.1 hexecutable
    exact ⟨process, hfound, hvariables _ process hprocess,
      ((hcommand ⟨"npm", [], ⟨.single, ["p"]⟩, []⟩ hpath).1).trans hprocess⟩

/-- With an empty environment the two users have different settings: the plugin host is at home, and
where that is the ambient environment says. -/
theorem resolve_explicit_home : ∃ settings other,
    Settings.resolve oneUser toolDisk none false (some []) = .ok settings ∧
    Settings.resolve (oneUser.withAmbient otherUser) toolDisk none false (some []) = .ok other ∧
    settings.hostRoot = ⟨.single, ["one", ".pulumi"]⟩ ∧
    other.hostRoot = ⟨.single, ["two", ".pulumi"]⟩ := by
  have hhosts : (Settings.resolve oneUser toolDisk none false (some [])).toOption.map
        (·.hostRoot) = some ⟨.single, ["one", ".pulumi"]⟩ ∧
      (Settings.resolve (oneUser.withAmbient otherUser) toolDisk none false
        (some [])).toOption.map (·.hostRoot) = some ⟨.single, ["two", ".pulumi"]⟩ := by
    decide +kernel
  obtain ⟨settings, hsettings, hone⟩ := Settings.ok_of_hostRoot hhosts.1
  obtain ⟨other, hother, htwo⟩ := Settings.ok_of_hostRoot hhosts.2
  exact ⟨settings, other, hsettings, hother, hone, htwo⟩

end ProviderKit
