import ProviderKit.Proofs.Disk.LoopFree
import ProviderKit.Proofs.Path.Shown
import ProviderKit.Proofs.Process.Ambient
import ProviderKit.Proofs.Program.Directory

/-!
# Settled settings

The directory and the plugin host of settings are real paths: they start at the root, without dots,
and without links along them (`Disk.IsCanonical`). On a disk without loops of links every directory
that is given, from every place, leads to such settings, whose paths lead where those given do
(`Disk.StandsFor`), and from the settings nothing else follows than the same settings, wherever one
stands (`Settings.resolve_settles`). No more links may lead to one another on the way than the
interpreter resolves.

Two kinds of links can stay in settings (`Settings.resolve_beyond_reach`). A link whose path is too
long for a request is taken for a directory, so `Disk.IsCanonical` does not ask for it; and a link
that leads back to itself behind a name that is missing leads into a loop in the sense of
`Disk.LoopFree`, though a walk just finds nothing there.
-/

namespace ProviderKit

namespace Disk

variable {disk : Disk}

/-- The path is canonical: it starts at the root, none of its names is blank or dots, and no entry
along it is a link, as far as its path can be asked for. -/
structure IsCanonical [Interpreter] (disk : Disk) (path : Path) : Prop where
  absolute : path.root = .single
  pieces : ∀ name ∈ path.names, Path.IsPiece name
  notUp : ∀ name ∈ path.names, name ≠ Text.ofString ".."
  clear : ∀ front, front <+: path.names → isNameable front = true → ∀ target,
    disk.get? (front.map Utf8.canonical) ≠ some (.link target)
  /-- It is its own real path. -/
  fixed : disk.resolve path = .ok path

/-- A path that is resolved has a real path. -/
theorem realPath_of_resolve [Interpreter] {path real : Path} (h : disk.resolve path = .ok real) :
    disk.realPath path = .ok real := by
  unfold resolve at h
  split at h
  · cases h
  next found hfound =>
    rw [hfound]
    split at h
    · cases h
    · split at h
      · cases h
      · cases h
        rfl
    · cases h
      rfl

/-- A path stands for another one: a directory that is found under the other one, through links that
can be named, is at the place of its names. -/
def StandsFor (disk : Disk) (real path : Path) : Prop :=
  ∀ place, disk.nameable.find true path = .ok (place, .directory) →
    real.names.map Utf8.canonical = place

/-- A path is resolved to one that stands for it. -/
theorem Regular.standsFor [Interpreter] (h : disk.Regular) {path real : Path}
    (hresolve : disk.resolve path = .ok real) : disk.StandsFor real path := by
  intro place hfind
  obtain ⟨names, hnames, hdenotes⟩ := realPath_of_find h.toWellFormed.nameable
    h.nameable_ordinary disk.nameable_extended hfind
  obtain rfl : (⟨.single, names⟩ : Path) = real :=
    Except.ok.inj (hnames.symm.trans (realPath_of_resolve hresolve))
  exact hdenotes.read

/-- The names of a link's target have no slashes in them. -/
theorem slashless_of_mem_writtenNames {target name : Text} (h : name ∈ writtenNames target) :
    CodePoint.char '/' ∉ name := by
  unfold writtenNames at h
  exact slashless_of_mem_split h

/-- On a disk without loops a path has a canonical real path. -/
theorem LoopFree.exists_canonical [Interpreter] (h : disk.LoopFree) (hdisk : disk.Regular)
    {path : Path} (hlinks : disk.Resolvable path) (husable : ∀ name ∈ path.names, Usable name)
    (hslashless : ∀ name ∈ path.names, CodePoint.char '/' ∉ name) :
    ∃ real, disk.resolve path = .ok real ∧ disk.IsCanonical real := by
  obtain ⟨names, hresolve, hreal⟩ := h.exists_resolve hdisk hlinks husable
  have hpiece : ∀ name ∈ names, CodePoint.char '/' ∉ name :=
    realPath_forall (fun _ _ _ _ => slashless_of_mem_writtenNames) hslashless
      (realPath_of_resolve hresolve)
  refine ⟨_, hresolve, rfl, fun name hname => ?_, fun name hname => (hreal.down name hname).notUp,
    fun front hfront hshort => (hreal.of_front hfront).get?_ne_link hdisk hshort,
    hreal.resolve_eq hdisk⟩
  have hcounts := (hreal.down name hname).counts
  simp only [saysNothing, Bool.or_eq_false_iff, List.isEmpty_eq_false_iff,
    decide_eq_false_iff_not] at hcounts
  exact ⟨hcounts.1, hcounts.2, hpiece name hname⟩

end Disk

/-! ## The plugin host -/

namespace Settings

variable {s : Surroundings} {disk : Disk}

/-- The text of the root of the plugin host, with a tilde where it lies at home. -/
def hostText (environment : Environment) : Text :=
  let given := environment.get hostVariable
  if given.isEmpty then "~/.pulumi" else given

/-- An empty value says as little as none. -/
theorem hostText_of_empty {environment other : Environment}
    (h : environment.get? hostVariable = some []) (hother : other.get? hostVariable = none) :
    hostText environment = hostText other := by
  have hgiven : environment.get hostVariable = [] := congrArg (Option.getD · []) h
  have hnone : other.get hostVariable = [] := congrArg (Option.getD · []) hother
  rw [hostText, hostText, hgiven, hnone]

/-- With one name more the home of the user is expanded as it is without. -/
theorem expandHome_tilde (name : Text) :
    s.expandHome ⟨.relative, [[.char '~'], name]⟩ = (·.child name) <$> s.home := by
  have htilde : Path.ofText "~" = ⟨.relative, [[.char '~']]⟩ := by decide
  rw [Surroundings.home, htilde]
  show (s.homeOf [] >>= _) = _ <$> (s.homeOf [] >>= _)
  rcases s.homeOf [] with e | _ | home
  · rfl
  · rfl
  · dsimp only [bind, Except.bind]
    split
    · rfl
    · simp [Path.child, Functor.map, Except.map, pure, Except.pure]

/-- The root of the plugin host is what its text leads to. -/
theorem resolveHost_eq [Interpreter] (environment : Environment) : resolveHost s disk environment =
    s.expandHome (.ofText (hostText environment)) >>= s.resolve disk := by
  unfold resolveHost hostText
  dsimp only
  split
  · have husual : Path.ofText "~/.pulumi" = ⟨.relative, [[.char '~'], ".pulumi"]⟩ := by decide
    rw [husual, expandHome_tilde]
    rcases s.home with e | home <;> rfl
  · rfl

/-- The names of a path whose tilde was replaced are pieces between slashes. -/
theorem isPiece_of_expandHome {t : Text} {path : Path} (h : s.expandHome (.ofText t) = .ok path) :
    ∀ name ∈ path.names, Path.IsPiece name := by
  have hnames : ∀ name ∈ (Path.ofText t).names, Path.IsPiece name :=
    fun _ => Path.isPiece_of_mem_namesOf
  unfold Surroundings.expandHome at h
  split at h
  next user names hroot htilde =>
    obtain ⟨found, -, h⟩ := except_bind_eq_ok.1 h
    cases found with
    | none => cases h
    | some home =>
      dsimp only at h
      split at h
      · cases h
      · cases h
        intro name hname
        rcases List.mem_append.1 hname with hhome | hmore
        · exact Path.isPiece_of_mem_namesOf hhome
        · exact hnames name (by rw [htilde]; exact List.mem_cons_of_mem _ hmore)
  next =>
    cases h
    exact hnames

/-! ## Settled settings -/

/-- The settings are settled: both paths are canonical, and when the settings are made again for the
directory, whatever is found around the run, and with variables that name the same plugin host and
the same release, they are the same. -/
structure IsSettled [Interpreter] (disk : Disk) (settings : Settings) : Prop where
  directory : disk.IsCanonical settings.directory
  hostRoot : disk.IsCanonical settings.hostRoot
  again : ∀ (t : Surroundings) (retain : Bool) (given : Option Environment),
    (given.getD t.environment).get? hostVariable = some settings.hostRoot.text →
    (given.getD t.environment).get? releaseVariable = settings.releaseReference →
    resolve t disk (some settings.directory) retain given =
      .ok { settings with retain, environment := given.getD t.environment }

/-- A canonical path is resolved to itself from everywhere. -/
theorem resolve_canonical [Interpreter] {path : Path} (h : disk.IsCanonical path)
    (t : Surroundings) :
    t.resolve disk path = .ok path := by
  have habsolute : path.isAbsolute = true := by rw [Path.isAbsolute, h.absolute]; rfl
  rw [Surroundings.resolve, Surroundings.absolute, Path.join_of_isAbsolute habsolute, h.fixed]

/-- Settings with canonical paths are settled. -/
theorem isSettled_of_canonical [Interpreter] {settings : Settings}
    (hdirectory : disk.IsCanonical settings.directory)
    (hhost : disk.IsCanonical settings.hostRoot) : settings.IsSettled disk := by
  refine ⟨hdirectory, hhost, fun t retain given hgiven hrelease => ?_⟩
  have hread : Path.ofText settings.hostRoot.text = settings.hostRoot :=
    Path.ofText_text hhost.pieces
  have habsolute : settings.hostRoot.isAbsolute = true := by
    rw [Path.isAbsolute, hhost.absolute]
    rfl
  have htext : hostText (given.getD t.environment) = settings.hostRoot.text := by
    have hget : (given.getD t.environment).get hostVariable = settings.hostRoot.text :=
      congrArg (Option.getD · []) hgiven
    have hsome : settings.hostRoot.text.isEmpty = false := by
      rw [Path.text, hhost.absolute]
      rfl
    rw [hostText, hget, hsome]
    rfl
  rw [resolve, resolveHost_eq, htext, hread, Surroundings.expandHome_of_isAbsolute habsolute]
  dsimp only [Option.getD_some, bind, Except.bind]
  rw [resolve_canonical hdirectory, resolve_canonical hhost, hrelease]
  rfl

/-- The settings are told by where the user is at home, where the plugin host is looked for and the
release. -/
theorem resolve_of_alike [Interpreter] {directory : Option Path} {retain : Bool}
    {ambient : Environment} {given other : Option Environment} {settings : Settings}
    (h : resolve s disk directory retain given = .ok settings)
    (hhome : ambient.get? homeVariable = s.environment.get? homeVariable)
    (hhost : hostText (other.getD ambient) = hostText (given.getD s.environment))
    (hrelease : (other.getD ambient).get? releaseVariable =
      (given.getD s.environment).get? releaseVariable) :
    resolve (s.withAmbient ambient) disk directory retain other =
      .ok { settings with environment := other.getD ambient } := by
  obtain ⟨real, hostRoot, hreal, hroot, rfl⟩ := resolve_eq_ok.1
    (show resolve s disk directory retain (some (given.getD s.environment)) = _ from h)
  have hroot' : resolveHost (s.withAmbient ambient) disk (other.getD ambient) = .ok hostRoot := by
    rw [Surroundings.resolveHost_of_same_home hhome, resolveHost_eq, hhost, ← resolveHost_eq, hroot]
  show resolve (s.withAmbient ambient) disk directory retain (some (other.getD ambient)) = _
  exact resolve_eq_ok.2 ⟨real, hostRoot, hreal, hroot', by rw [← hrelease]⟩

section

variable {start : Place}

/-- On a disk without loops a path, as seen from a directory, has a canonical real path that stands
for it. -/
theorem exists_canonical_resolve [Interpreter] (hdisk : disk.Regular) (hloops : disk.LoopFree)
    (hstands : s.workingDirectory = ⟨.single, start⟩) (hstart : disk.get? start = some .directory)
    {path : Path} (hlinks : disk.Resolvable (s.absolute path))
    (husable : ∀ name ∈ path.names, Disk.Usable name)
    (hpieces : ∀ name ∈ path.names, Path.IsPiece name) :
    ∃ real, s.resolve disk path = .ok real ∧ disk.IsCanonical real ∧
      disk.StandsFor real (s.absolute path) := by
  have hseen : ∀ name ∈ (s.absolute path).names,
      Disk.Usable name ∧ CodePoint.char '/' ∉ name := by
    intro name hname
    rw [Surroundings.absolute, hstands, Path.join] at hname
    split at hname
    · exact ⟨husable name hname, (hpieces name hname).slashless⟩
    · rcases List.mem_append.1 hname with hfront | hback
      · have hname := hdisk.names start _ hstart name hfront
        exact ⟨hname.usable, hname.slashless⟩
      · exact ⟨husable name hback, (hpieces name hback).slashless⟩
  obtain ⟨real, hresolve, hreal⟩ := hloops.exists_canonical hdisk hlinks
    (fun name hname => (hseen name hname).1) fun name hname => (hseen name hname).2
  exact ⟨real, by rw [Surroundings.resolve, hresolve], hreal, hdisk.standsFor hresolve⟩

/-- On a disk without loops of links every run comes to settled settings: from whatever directory it
stands in, for whatever directory it is given, there or not, and wherever the plugin host is, if the
home that it may be looked for at is known, and as long as the interpreter can resolve the links on
the two ways. The paths stand for what was given, and the disk is only
looked at. A release is in the settings as soon as its variable is set, also to nothing, while a
plugin host that is set to nothing is looked for where it is when it is not set. -/
theorem resolve_settles [Interpreter] {w : World} {host : Path} (directory : Option Text)
    (retain : Bool) (given : Option Environment) (hdisk : w.disk.Regular) (hloops : w.disk.LoopFree)
    (hstands : s.workingDirectory = ⟨.single, start⟩) (hstart : w.disk.get? start = some .directory)
    (hdirectory : ∀ t ∈ directory, Disk.Usable t)
    (hlinks : w.disk.Resolvable (s.absolute ((directory.map .ofText).getD s.workingDirectory)))
    (hexpand : s.expandHome (.ofText (hostText (given.getD s.environment))) = .ok host)
    (hhost : ∀ name ∈ host.names, Disk.Usable name)
    (hhostLinks : w.disk.Resolvable (s.absolute host)) :
    ∃ settings : Settings,
      (Run.look fun disk => resolve s disk (directory.map .ofText) retain given).perform w =
        (.ok settings, w) ∧
      settings.IsSettled w.disk ∧
      w.disk.StandsFor settings.directory
        (s.absolute ((directory.map .ofText).getD s.workingDirectory)) ∧
      w.disk.StandsFor settings.hostRoot (s.absolute host) ∧
      settings.releaseReference = (given.getD s.environment).get? releaseVariable ∧
      ∀ (ambient : Environment) (other : Option Environment),
        ambient.get? homeVariable = s.environment.get? homeVariable →
        (given.getD s.environment).get? hostVariable = some [] →
        (other.getD ambient).get? hostVariable = none →
        (other.getD ambient).get? releaseVariable =
          (given.getD s.environment).get? releaseVariable →
        resolve (s.withAmbient ambient) w.disk (directory.map .ofText) retain other =
          .ok { settings with environment := other.getD ambient } := by
  -- The directory is the given one or the working directory, and both are followed from there.
  have hgiven : ∃ real, s.resolve w.disk ((directory.map Path.ofText).getD s.workingDirectory) =
      .ok real ∧ w.disk.IsCanonical real ∧ w.disk.StandsFor real
        (s.absolute ((directory.map Path.ofText).getD s.workingDirectory)) := by
    cases directory with
    | none =>
      have hnames : ∀ name ∈ s.workingDirectory.names, Disk.IsName name := by
        rw [hstands]
        exact hdisk.names start _ hstart
      exact exists_canonical_resolve hdisk hloops hstands hstart hlinks
        (fun name hname => (hnames name hname).usable) fun name hname =>
          ⟨(hnames name hname).nonempty, (hnames name hname).plain.1, (hnames name hname).slashless⟩
    | some t =>
      have husable : ∀ name ∈ Path.namesOf t, Disk.Usable name := fun name hname =>
        (hdirectory t rfl).subset (Text.subset_of_mem_split (List.mem_of_mem_filter hname))
      exact exists_canonical_resolve hdisk hloops hstands hstart hlinks husable fun _ =>
        Path.isPiece_of_mem_namesOf
  obtain ⟨real, hreal, hrealIs, hrealFor⟩ := hgiven
  obtain ⟨hostRoot, hroot, hrootIs, hrootFor⟩ := exists_canonical_resolve hdisk hloops hstands
    hstart hhostLinks hhost (isPiece_of_expandHome hexpand)
  have hroot' : resolveHost s w.disk (given.getD s.environment) = .ok hostRoot := by
    rw [resolveHost_eq, hexpand]
    exact hroot
  have hresolve : resolve s w.disk (directory.map .ofText) retain given =
      .ok { directory := real, retain, hostRoot, environment := given.getD s.environment,
            releaseReference := (given.getD s.environment).get? releaseVariable } :=
    resolve_eq_ok.2 ⟨real, hostRoot, hreal, hroot', rfl⟩
  refine ⟨_, by rw [Run.perform_look, hresolve], isSettled_of_canonical hrealIs hrootIs, hrealFor,
    hrootFor, rfl, fun ambient other hhome hempty hunset hrelease => ?_⟩
  exact resolve_of_alike hresolve hhome (hostText_of_empty hempty hunset).symm hrelease

end

/-! ## Links along the way -/

/-- A disk with a link to a directory, and a link to that link. -/
def linkedDisk : Disk where
  entries :=
    [([Text.ofString "b"], .directory), ([Text.ofString "d"], .directory),
     ([Text.ofString "d", "e"], .directory), ([Text.ofString "l"], .link "d/e"),
     ([Text.ofString "m"], .link "l")]

/-- A run whose user is at home behind the link, with two variables that are set to nothing. -/
def beyondLinks : Surroundings where
  environment := [("HOME", "/l"), ("PULUMI_HOME", []), ("GITHUB_REF", [])]
  workingDirectory := ⟨.single, ["b"]⟩

/-- The directory is given through both links, with dots behind them and behind a name that is
missing, and is missing itself. -/
theorem resolve_settles_links : linkedDisk.Regular ∧ linkedDisk.LoopFree ∧
    linkedDisk.get? ["b"] = some .directory ∧ Disk.Usable "../m/../missing/../n" ∧
    linkedDisk.Resolvable (beyondLinks.absolute (.ofText "../m/../missing/../n")) ∧
    linkedDisk.Resolvable (beyondLinks.absolute ⟨.single, ["l", ".pulumi"]⟩) ∧
    beyondLinks.expandHome (.ofText (hostText beyondLinks.environment)) =
      .ok ⟨.single, ["l", ".pulumi"]⟩ ∧
    ∃ settings : Settings, settings.directory = ⟨.single, ["d", "n"]⟩ ∧
      settings.hostRoot = ⟨.single, ["d", "e", ".pulumi"]⟩ ∧
      settings.releaseReference = some [] ∧ settings.IsSettled linkedDisk ∧
      resolve beyondLinks linkedDisk (some (.ofText "../m/../missing/../n")) false none =
        .ok settings ∧
      resolve beyondLinks linkedDisk (some (.ofText "../m/../missing/../n")) false
        (some [("GITHUB_REF", [])]) =
          .ok { settings with environment := [("GITHUB_REF", [])] } := by
  have hregular : linkedDisk.Regular := Disk.regular_of_check (by decide +kernel)
  have hloops : linkedDisk.LoopFree := Disk.loopFree_of_check (by decide +kernel)
  have husable : Disk.Usable "../m/../missing/../n" := by decide
  have hlinks : linkedDisk.Resolvable (beyondLinks.absolute (.ofText "../m/../missing/../n")) ∧
      linkedDisk.Resolvable (beyondLinks.absolute ⟨.single, ["l", ".pulumi"]⟩) := by
    decide +kernel
  have hexpand : beyondLinks.expandHome (.ofText (hostText beyondLinks.environment)) =
      .ok ⟨.single, ["l", ".pulumi"]⟩ := rfl
  have hpaths : (resolve beyondLinks linkedDisk (some (.ofText "../m/../missing/../n")) false
      none).toOption.map (fun settings => (settings.directory, settings.hostRoot)) =
        some (⟨.single, ["d", "n"]⟩, ⟨.single, ["d", "e", ".pulumi"]⟩) := by
    decide +kernel
  obtain ⟨settings, hrun, hsettled, -, -, hrelease, hunset⟩ :=
    resolve_settles (w := { disk := linkedDisk }) (some "../m/../missing/../n") false none hregular
      hloops rfl rfl (by simpa using husable) hlinks.1 hexpand (by decide) hlinks.2
  have hresolve : resolve beyondLinks linkedDisk (some (.ofText "../m/../missing/../n")) false
      none = .ok settings := (Prod.mk.inj hrun).1
  obtain ⟨hdirectory, hroot⟩ := Prod.mk.inj (Option.some.inj (hresolve ▸ hpaths))
  exact ⟨hregular, hloops, rfl, husable, hlinks.1, hlinks.2, hexpand, settings, hdirectory, hroot,
    hrelease, hsettled, hresolve,
    hunset beyondLinks.environment (some [("GITHUB_REF", [])]) rfl rfl rfl rfl⟩

/-! ## Links out of reach -/

/-- A disk with a link that leads to itself through another one, behind a name that is missing. -/
def feignedDisk : Disk where
  entries :=
    [([Text.ofString "l"], .link "missing/../m"), ([Text.ofString "m"], .link "l"),
     ([Text.ofString "b"], .directory)]

/-- The name of a link. -/
def linkName (n : Nat) : Text := Text.ofChars ['l', Char.ofNat ('A'.toNat + n)]

/-- A disk with one link more than the system follows, each leading to the next. -/
def chainedDisk : Disk where
  entries := ([Text.ofString "b"], .directory) ::
    (List.range 41).map fun n => ([linkName n], .link (linkName (n + 1)))

/-- There are no settings because something is too deep. -/
def endsTooDeep : Except Failure Settings → Bool
  | .error (.disk .tooDeep) => true
  | _ => false

/-- Settings can be checked not to be there because something is too deep. -/
theorem tooDeep_of_check {outcome : Except Failure Settings} (h : endsTooDeep outcome = true) :
    outcome = .error (.disk .tooDeep) := by
  unfold endsTooDeep at h
  split at h
  next => rfl
  next => cases h

/-- An interpreter that resolves as few links as any does not resolve them. -/
theorem chained_tooDeep : ∃ interpreter : Interpreter, interpreter.resolving = 40 ∧
    resolve Program.beside chainedDisk (some (.ofText "/lA")) false none =
      .error (.disk .tooDeep) := by
  let interpreter : Interpreter :=
    { Interpreter.usual with resolving := 40, resolves := Nat.le_refl 40 }
  exact ⟨interpreter, rfl, tooDeep_of_check (by decide +kernel)⟩

/-- Settings can have a link for their directory: one whose path is too long to be asked for, on a
disk without loops, and one behind a missing name, on a disk whose links just lead nowhere. And
there are no settings where more links lead to one another than the interpreter resolves. -/
theorem resolve_beyond_reach :
    (Program.deepDisk.Regular ∧ Program.deepDisk.LoopFree ∧
      Program.deepDisk.get? ["b"] = some .directory ∧ Disk.Usable Program.deepWay ∧
      ∃ settings : Settings,
        resolve Program.beside Program.deepDisk (some (.ofText Program.deepWay)) false none =
          .ok settings ∧
        settings.directory = ⟨.single, List.replicate 16 Program.longName⟩ ∧
        Program.deepDisk.get? settings.directory.names = some (.link "/p")) ∧
    (feignedDisk.Regular ∧
      feignedDisk.find true (.ofText "/l") = .error (.refused .missing (.ofText "/l")) ∧
      feignedDisk.find true (.ofText "/m") = .error (.refused .missing (.ofText "/m")) ∧
      ∃ settings : Settings,
        resolve Program.beside feignedDisk (some (.ofText "/l")) false none = .ok settings ∧
        settings.directory = .ofText "/l" ∧
        feignedDisk.get? settings.directory.names = some (.link "missing/../m")) ∧
    chainedDisk.Regular ∧ chainedDisk.LoopFree ∧
      ∃ interpreter : Interpreter, interpreter.resolving = 40 ∧
        resolve Program.beside chainedDisk (some (.ofText "/lA")) false none =
          .error (.disk .tooDeep) := by
  have hdeep : (resolve Program.beside Program.deepDisk (some (.ofText Program.deepWay)) false
      none).toOption.map (·.directory) =
        some ⟨.single, List.replicate 16 Program.longName⟩ := by
    decide +kernel
  have hfeigned : (resolve Program.beside feignedDisk (some (.ofText "/l")) false
      none).toOption.map (·.directory) = some (.ofText "/l") := by
    decide +kernel
  obtain ⟨deep, hdeepIs, hdeepDirectory⟩ := Option.map_eq_some_iff.1 hdeep
  obtain ⟨feigned, hfeignedIs, hfeignedDirectory⟩ := Option.map_eq_some_iff.1 hfeigned
  refine ⟨⟨Disk.regular_of_check (by decide +kernel), Disk.loopFree_of_check (by decide +kernel),
    rfl, by decide +kernel, deep, ok_of_toOption hdeepIs, hdeepDirectory, ?_⟩,
    ⟨Disk.regular_of_check (by decide +kernel), rfl, rfl, feigned, ok_of_toOption hfeignedIs,
    hfeignedDirectory, ?_⟩, Disk.regular_of_check (by decide +kernel),
    Disk.loopFree_of_check (by decide +kernel), chained_tooDeep⟩
  · rw [hdeepDirectory]
    rfl
  · rw [hfeignedDirectory]
    rfl

end Settings

end ProviderKit
