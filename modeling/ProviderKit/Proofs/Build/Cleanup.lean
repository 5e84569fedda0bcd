import ProviderKit.Proofs.Build.Stages
import ProviderKit.Proofs.Disk.Removal

/-!
# Cleaning up after a build

Once a build has its staging directory, the stages that work in it decide how the build ends, and
the cleaning up decides what is left of the directory. It stays as the stages left it if it is to be
retained. Otherwise it is gone at the end, or there is exactly one warning that names it, and the
build never warns of anything else (`run_cleans_up`).

One thing upsets this: the interpreter ends the removal when something lies too many levels down in
the directory (`Build.Stuck`). A tool can see to that, and then its own failure goes unheard
(`run_masks_failure`).
-/

namespace ProviderKit

namespace Build

/-! ## Warnings -/

/-- The two worlds have seen the same warnings. -/
abbrev SameWarnings : World → World → Prop := Run.Same World.warnings

/-- Warnings depend neither on the disk nor on the other messages. -/
theorem sameWarnings_unaffected : Run.Unaffected SameWarnings where
  toLasting := Run.same_lasting _
  disk _ _ := rfl
  say w m hm := by
    cases m with
    | warning t => cases hm
    | _ => simp [Run.Same, World.warnings]

/-! ## The staging directory -/

/-- The directory for temporary entries is one of those that the build was given. -/
theorem temporaryDirectory_mem {b : Build} {disk : Disk} {directory : Path}
    (h : b.temporaryDirectory disk = .ok directory) : directory ∈ b.temporaryDirectories := by
  unfold temporaryDirectory at h
  split at h
  next found hfound =>
    cases h
    exact List.mem_of_find?_eq_some hfound
  next => cases h

/-- Builds that find the same directory among theirs use it for temporary entries. -/
theorem temporaryDirectory_congr {b c : Build} {disk : Disk}
    (h : b.temporaryDirectories.find? (disk.takesTemporary b.draws) =
      c.temporaryDirectories.find? (disk.takesTemporary c.draws)) :
    b.temporaryDirectory disk = c.temporaryDirectory disk := by
  unfold temporaryDirectory
  rw [h]

/-- A staging directory that was made is an empty directory at a place of its own, in one of the
directories for temporary entries. -/
theorem makeStaging_ok {b : Build} {w w₁ : World} {staging : Path}
    (h : b.makeStaging.perform w = (.ok staging, w₁)) :
    ∃ place, w.disk.locate false staging = .ok place ∧ w.disk.get? place = none ∧
      w₁ = { w with disk := w.disk.put place .directory } ∧
      ∃ directory ∈ b.temporaryDirectories, ∃ draw,
        staging = (⟨directory.root, Path.collapse directory.names⟩ : Path).child
          (stagingStart ++ draw) := by
  unfold makeStaging at h
  rcases hdirectory : b.temporaryDirectory w.disk with e | directory
  · rw [Run.perform_bind_error _ (by rw [Run.perform_look, hdirectory])] at h
    cases h
  rw [Run.perform_bind_ok _ (a := directory) (by rw [Run.perform_look, hdirectory])] at h
  rcases hpath : w.disk.temporaryPath directory stagingStart [] b.draws with fault | path
  · rw [Run.perform_bind_error _ (by rw [Run.perform_look, hpath]; rfl)] at h
    cases h
  rw [Run.perform_bind_ok _ (a := path) (by rw [Run.perform_look, hpath]; rfl)] at h
  rcases hmake : w.disk.makeDirectory path with fault | made
  · rw [Run.perform_bind_error _ (Run.perform_request_error hmake)] at h
    cases h
  rw [Run.perform_bind_ok _ (Run.perform_request_ok hmake), Run.perform_pure] at h
  cases h
  obtain ⟨draw, -, hstaging, -⟩ := Disk.temporaryPath_ok hpath
  obtain ⟨place, hlocate, hfree, rfl⟩ := Disk.makeDirectory_ok hmake
  refine ⟨place, hlocate, hfree, rfl, directory, temporaryDirectory_mem hdirectory, draw, ?_⟩
  rw [hstaging, List.append_nil]

/-- The path of a staging directory can be given to a disk, and it ends in a plain name. -/
theorem makeStaging_path {b : Build} {w w₁ : World} {staging : Path}
    (h : b.makeStaging.perform w = (.ok staging, w₁)) :
    Disk.IsGivable staging ∧
      ∃ names name, Disk.readNames staging = names ++ [name] ∧ Disk.IsPlain name := by
  obtain ⟨place, hlocate, -, -, directory, -, draw, hstaging⟩ := makeStaging_ok h
  refine ⟨(Disk.walk_of_locate hlocate).1, _, _, by rw [hstaging, Disk.readNames_child], ?_⟩
  have hsize : 2 < Utf8.losslessSize stagingStart := by decide
  refine Disk.isPlain_canonical ?_
  rw [Disk.losslessSize_append]
  omega

/-- A staging directory that was made is found under its path. -/
theorem makeStaging_found {b : Build} {w w₁ : World} {staging : Path}
    (h : b.makeStaging.perform w = (.ok staging, w₁)) :
    ∃ place, w₁.disk.find false staging = .ok (place, .directory) := by
  obtain ⟨place, hlocate, hfree, rfl, -⟩ := makeStaging_ok h
  exact ⟨place, Disk.find_put_directory hlocate hfree⟩

/-! ## The end of a build -/

/-- Cleaning up after the build gets stuck: the staging directory is to be removed, and what the
stages left in it has an entry more levels down than the interpreter removes. -/
def Stuck [Interpreter] (b : Build) (w : World) : Prop :=
  ∃ package staging w₁, b.prepare.perform w = (.ok (package, staging), w₁) ∧
    b.settings.retain = false ∧
    ∃ place, ((b.assemble package staging).perform w₁).2.disk.find false staging =
        .ok (place, .directory) ∧
      ¬ ((b.assemble package staging).perform w₁).2.disk.Shallow Interpreter.removing place

section Prepared

variable [Interpreter] {b : Build} {w w₁ : World} {package : Package} {staging : Path}
  (hprepare : b.prepare.perform w = (.ok (package, staging), w₁))
include hprepare

/-- The path of the staging directory of a prepared build can be given to a disk, and it ends in a
plain name. -/
theorem prepared_path : Disk.IsGivable staging ∧
    ∃ names name, Disk.readNames staging = names ++ [name] ∧ Disk.IsPlain name := by
  obtain ⟨-, -, found, made, -, -, hmake, -⟩ := prepare_ok hprepare
  exact makeStaging_path hmake

/-- Cleaning up after a prepared build gets stuck just where it cannot be done. -/
theorem stuck_iff :
    b.Stuck w ↔ ¬ b.Tidies staging ((b.assemble package staging).perform w₁).2.disk := by
  obtain ⟨hgivable, -⟩ := prepared_path hprepare
  rw [tidies_iff hgivable]
  constructor
  · rintro ⟨package', staging', w', hprepare', hretain, place, hfind, hdeep⟩ htidy
    rw [hprepare] at hprepare'
    cases hprepare'
    exact hdeep (htidy.resolve_left (by simp [hretain]) place hfind)
  · intro h
    push Not at h
    obtain ⟨hretain, place, hfind, hdeep⟩ := h
    exact ⟨package, staging, w₁, hprepare, by simpa using hretain, place, hfind, hdeep⟩

/-- Where cleaning up does not get stuck, the stages alone decide the outcome of a build. -/
theorem perform_run_tidy (h : ¬ b.Stuck w) :
    b.run.perform w = (((b.assemble package staging).perform w₁).1,
      ((b.cleanUp staging).perform ((b.assemble package staging).perform w₁).2).2) := by
  rw [stuck_iff hprepare, not_not] at h
  exact perform_run hprepare h

/-- A build whose cleaning up gets stuck fails for that reason, whatever the stages came to. It says
nothing about it, and leaves the entry that is too many levels down, and the way to it. -/
theorem perform_run_deep (h : b.Stuck w) :
    let stages := (b.assemble package staging).perform w₁
    b.settings.retain = false ∧ ∃ place entry,
      stages.2.disk.find false staging = .ok (place, .directory) ∧
      stages.2.disk.deeper? Interpreter.removing place = some entry ∧
      b.run.perform w = (.error (.disk .tooDeep),
        { stages.2 with disk := stages.2.disk.eraseUpTo place entry }) := by
  intro stages
  obtain ⟨hgivable, -⟩ := prepared_path hprepare
  have hstuck := (stuck_iff hprepare).1 h
  obtain ⟨hretain, fault, hreported, hremoved, hclean⟩ := perform_cleanUp_stuck hstuck
  obtain htrue | ⟨rfl, place, entry, hfind, hdeeper, -⟩ :=
    Disk.removeTree_error hgivable (Prod.ext hremoved rfl)
  · rw [hreported] at htrue
    cases htrue
  refine ⟨hretain, place, entry, hfind, hdeeper, ?_⟩
  refine Prod.ext ?_ ?_
  · obtain ⟨other, -, hother, hrun⟩ := perform_run_stuck hprepare hstuck
    rw [hremoved] at hother
    cases hother
    rw [hrun]
  · rw [perform_run_world hprepare, hclean, Disk.removeTree_of_deeper hfind hdeeper]

/-- No warning is given before the cleaning up. -/
theorem assemble_warnings :
    ((b.assemble package staging).perform w₁).2.warnings = w.warnings := by
  have hR := sameWarnings_unaffected
  have hbefore := prepare_relates hR (fun _ _ => rfl) b w
  rw [hprepare] at hbefore
  exact hR.trans hbefore
    (assemble_relates hR (fun _ _ => rfl) (fun _ _ => rfl) b package staging w₁)

end Prepared

/-- A build whose cleaning up gets stuck ends with that. -/
theorem run_of_stuck [Interpreter] {b : Build} {w : World} (h : b.Stuck w) :
    (b.run.perform w).1 = .error (.disk .tooDeep) := by
  obtain ⟨package, staging, w₁, hprepare, -⟩ := id h
  obtain ⟨-, place, entry, -, -, hrun⟩ := perform_run_deep hprepare h
  rw [hrun]

/-- Whether a build ends in another way than by getting stuck. -/
def endsTidily [Interpreter] (b : Build) (w : World) : Bool :=
  match (b.run.perform w).1 with
  | .error (.disk .tooDeep) => false
  | _ => true

/-- A build that passes the check does not get stuck. -/
theorem not_stuck_of_check [Interpreter] {b : Build} {w : World} (h : b.endsTidily w = true) :
    ¬ b.Stuck w := by
  intro hstuck
  rw [endsTidily, run_of_stuck hstuck] at h
  cases h

/-- How a build ends that has its staging directory. A directory that is to be retained stays as the
stages left it, and the build ends as they did, with their result or with the very failure of the
one that failed. Otherwise either the directory is removed, and is not there any more, and nothing
is warned of; or the disk refuses, and the one warning says for which directory and why. Then too
the outcome is that of the stages. But if something in the directory is more levels down than the
interpreter removes, that is the outcome: it takes the place of what the stages came to, there is no
warning, and the directory is still there. -/
theorem run_cleans_up [Interpreter] {b : Build} {w w₁ : World} {package : Package} {staging : Path}
    (hprepare : b.prepare.perform w = (.ok (package, staging), w₁)) :
    let stages := (b.assemble package staging).perform w₁
    let ended := b.run.perform w
    (∃ place, w₁.disk.find false staging = .ok (place, .directory)) ∧
    (b.settings.retain = true →
      ended.1 = stages.1 ∧ ended.2.disk = stages.2.disk ∧ ended.2.warnings = w.warnings) ∧
    (b.settings.retain = false →
      (∃ left, stages.2.disk.removeTree staging = (.ok (), left) ∧
        ended.1 = stages.1 ∧ ended.2.disk = left ∧
        left.find false staging = .error (.refused .missing staging) ∧
        ended.2.warnings = w.warnings) ∨
      (∃ fault left, stages.2.disk.removeTree staging = (.error fault, left) ∧
        fault.isReported = true ∧
        ended.1 = stages.1 ∧ ended.2.disk = left ∧
        ended.2.warnings = w.warnings ++ [removalWarning staging fault]) ∨
      (∃ place names entry, stages.2.disk.find false staging = .ok (place, .directory) ∧
        stages.2.disk.get? (place ++ names) = some entry ∧ Interpreter.removing < names.length ∧
        ended.1 = .error (.disk .tooDeep) ∧
        ended.2.disk.get? place = some .directory ∧
        ended.2.warnings = w.warnings)) := by
  intro stages ended
  obtain ⟨-, names, name, hnames, hplain⟩ := prepared_path hprepare
  have hwarnings : stages.2.warnings = w.warnings := assemble_warnings hprepare
  refine ⟨?_, fun hretain => ?_, fun hretain => ?_⟩
  · obtain ⟨-, -, found, made, -, -, hmake, rfl⟩ := prepare_ok hprepare
    obtain ⟨place, hfind⟩ := makeStaging_found hmake
    exact ⟨place, hfind⟩
  · have hended : ended = (stages.1, ((b.cleanUp staging).perform stages.2).2) :=
      perform_run hprepare (.inl hretain)
    rw [hended, perform_cleanUp (.inl hretain), perform_removeStaging_retain hretain]
    refine ⟨rfl, rfl, ?_⟩
    rw [← hwarnings]
    exact sameWarnings_unaffected.say stages.2 (.info _) rfl
  -- A fault that the system does not report replaces the outcome. A directory that has been made
  -- can be named, so the depth is the only such fault.
  by_cases hstuck : b.Stuck w
  · obtain ⟨-, place, deep, hfind, hdeeper, hrun⟩ := perform_run_deep hprepare hstuck
    have hended : ended = _ := hrun
    obtain ⟨below, entry, rfl, hlevels, hentry⟩ := Disk.deeper?_eq_some hdeeper
    refine .inr (.inr ⟨place, below, entry, hfind, hentry, hlevels, by rw [hended], ?_, ?_⟩)
    · rw [hended]
      dsimp only
      rw [Disk.get?_eraseUpTo_of_leading (List.prefix_append _ _)]
      exact (Disk.find_eq_ok.1 hfind).2
    · rw [hended]
      exact hwarnings
  · have htidy : b.Tidies staging stages.2.disk := by
      rwa [stuck_iff hprepare, not_not] at hstuck
    have hended : ended = (stages.1, ((b.cleanUp staging).perform stages.2).2) :=
      perform_run hprepare htidy
    rw [hended, perform_cleanUp htidy, perform_removeStaging hretain]
    rcases hremove : stages.2.disk.removeTree staging with ⟨fault | ⟨⟩, left⟩
    · have hreported : fault.isReported = true :=
        htidy.resolve_left (by simp [hretain]) fault (by rw [hremove])
      refine .inr (.inl ⟨fault, left, rfl, hreported, rfl, rfl, ?_⟩)
      rw [← hwarnings]
      simp [World.warnings, removalWarnings, hreported]
    · refine .inl ⟨left, rfl, rfl, rfl, Disk.find_of_removeTree hnames hplain hremove, ?_⟩
      rw [← hwarnings]
      simp [World.warnings, removalWarnings]

/-- The build of the small project ends as its stages do unless its tool leaves too many levels, and
without a warning its staging directory is then gone. -/
theorem run_cleans_up_small : ∃ package staging w₁,
    small.prepare.perform smallWorld = (.ok (package, staging), w₁) ∧
    (small.run.perform smallWorld).1 = ((small.assemble package staging).perform w₁).1 ∧
    ((small.run.perform smallWorld).2.warnings = [] →
      (small.run.perform smallWorld).2.disk.find false staging =
        .error (.refused .missing staging)) := by
  obtain ⟨w₁, hprepare⟩ := small_prepares
  obtain ⟨-, -, hremoved⟩ := run_cleans_up hprepare
  have hended : (small.run.perform smallWorld).1.isOk = true := by decide +kernel
  obtain ⟨left, -, houtcome, hdisk, hmissing, -⟩ | ⟨fault, left, -, -, houtcome, -, hwarned⟩ |
    ⟨place, names, entry, -, -, -, hfailed, -⟩ := hremoved rfl
  · refine ⟨_, _, w₁, hprepare, houtcome, fun _ => ?_⟩
    rw [hdisk]
    exact hmissing
  · refine ⟨_, _, w₁, hprepare, houtcome, fun hsilent => ?_⟩
    rw [hwarned] at hsilent
    simp at hsilent
  · rw [hfailed] at hended
    cases hended

/-! ## A tool that leaves too many levels -/

/-- The staging directory of the small project. -/
def smallStaging : Place := [Text.ofString "t", "provider-build-a"]

/-- The path of that directory. -/
def smallPath : Path := ⟨.single, smallStaging⟩

/-- The small project as a build finds it. -/
def smallFound : Package := ⟨"x", "0.0.0", false, .none⟩

/-- A package manager that leaves directories in the staging directory of the small project, one
within the other and one more than are removed, and then fails. -/
def delve : Runner := fun _ disk =>
  (.ok ⟨1, "no"⟩, disk.nest smallStaging (Interpreter.removing + 1))

/-- A build with that package manager. -/
def delving (settings : Settings) (temporaryDirectories : List Path) : Build where
  settings
  runner := delve
  temporaryDirectories
  draws := ["a"]

/-- What such a build does before the package manager is called. -/
def untilCall (b : Build) : Run (Package × Path) := do
  let prepared ← b.prepare
  let _ ← stage .resolveVersion (b.stagePackage smallFound smallPath)
  stage .stageFiles (b.stageFiles smallFound smallPath)
  pure prepared

/-- Whether the build then has its staging directory, with nothing in it that has entries of its own
or is in the way of the nested directories. -/
def isReady (b : Build) : Bool :=
  let (outcome, w) := b.untilCall.perform smallWorld
  outcome.toOption = some (smallFound, smallPath) &&
    (w.disk.find false smallPath).toOption.any
      (fun (place, entry) => place == smallStaging && entry.isDirectory) &&
    (w.disk.deeper? 1 smallStaging).isNone && (w.disk.get? (Disk.down smallStaging 1)).isNone

/-- The stages of such a build fail for the package manager, and cleaning up behind them gets
stuck. -/
theorem delving_stages {settings : Settings} {temporaryDirectories : List Path}
    (hretain : settings.retain = false)
    (hready : isReady (delving settings temporaryDirectories) = true) :
    let b := delving settings temporaryDirectories
    ∃ w₁ problem w₂, b.prepare.perform smallWorld = (.ok (smallFound, smallPath), w₁) ∧
      (b.assemble smallFound smallPath).perform w₁ = (.error (.problem problem), w₂) ∧
      problem.report.category = .command ∧
      w₂.disk.find false smallPath = .ok (smallStaging, .directory) ∧ b.Stuck smallWorld := by
  intro b
  rcases hrun : b.untilCall.perform smallWorld with ⟨e | prepared, w₃⟩
  all_goals rw [isReady, hrun] at hready
  · cases hready
  simp only [Bool.and_eq_true, Option.isNone_iff_eq_none, decide_eq_true_eq, Except.toOption,
    Option.some.injEq] at hready
  obtain ⟨⟨⟨rfl, hfind⟩, hshallow⟩, hfree⟩ := hready
  obtain ⟨_, w₁, hprepare, hrun⟩ := Run.perform_bind_eq_ok hrun
  obtain ⟨version, w₂, hversion, hrun⟩ := Run.perform_bind_eq_ok hrun
  obtain ⟨_, _, hfiles, hrun⟩ := Run.perform_bind_eq_ok hrun
  cases hrun
  obtain ⟨problem, w₄, hcall, hcategory, hdisk⟩ : ∃ problem w₄,
      (stage .installDependencies (b.installDependencies smallFound smallPath)).perform w₃ =
        (.error (.problem problem), w₄) ∧ problem.report.category = .command ∧
      w₄.disk = w₃.disk.nest smallStaging (Interpreter.removing + 1) :=
    ⟨_, _, perform_stage_error rfl, rfl, rfl⟩
  have hassemble : (b.assemble smallFound smallPath).perform w₁ =
      (.error (.problem problem), w₄) := by
    rw [assemble, if_neg (by decide)]
    dsimp only
    rw [Run.perform_bind_ok _ hversion, Run.perform_bind_ok _ hfiles]
    exact Run.perform_bind_error _ hcall
  have hleft : w₄.disk.find false smallPath = .ok (smallStaging, .directory) := by
    have hext := Disk.extended_nest (Disk.deeper?_eq_none.1 hshallow) hfree
      (Interpreter.removing + 1)
    obtain ⟨entry, hentry, hseen⟩ :=
      Disk.find_of_extended hext (Disk.find_directory_of_check hfind)
    rw [hdisk, hentry]
    cases entry with
    | directory => rfl
    | file | link => cases hseen
  refine ⟨w₁, problem, w₄, hprepare, hassemble, hcategory, hleft,
    smallFound, smallPath, w₁, hprepare, hretain, smallStaging, by rw [hassemble, hleft], ?_⟩
  rw [hassemble, hdisk]
  exact Disk.not_shallow_nest _ _ _

/-- The build of the small project with that package manager. -/
def smallDelving : Build := delving small.settings small.temporaryDirectories

/-- Its stages fail for the package manager, and cleaning up behind them gets stuck. -/
theorem smallDelving_stages : ∃ w₁ problem w₂,
    smallDelving.prepare.perform smallWorld = (.ok (smallFound, smallPath), w₁) ∧
    (smallDelving.assemble smallFound smallPath).perform w₁ = (.error (.problem problem), w₂) ∧
    problem.report.category = .command ∧
    w₂.disk.find false smallPath = .ok (smallStaging, .directory) ∧
    smallDelving.Stuck smallWorld := by
  have hready : isReady smallDelving = true := by decide +kernel
  exact delving_stages rfl hready

/-- The failure of a package manager that leaves too many levels in the staging directory is not
what the build fails for: cleaning up behind it takes its place, without a warning, and leaves the
directory. -/
theorem run_masks_failure : smallDelving.settings.retain = false ∧ ∃ w₁ problem w₂,
    smallDelving.prepare.perform smallWorld = (.ok (smallFound, smallPath), w₁) ∧
    (smallDelving.assemble smallFound smallPath).perform w₁ = (.error (.problem problem), w₂) ∧
    (smallDelving.run.perform smallWorld).1 = .error (.disk .tooDeep) ∧
    (smallDelving.run.perform smallWorld).2.warnings = [] ∧
    (smallDelving.run.perform smallWorld).2.disk.get? smallStaging = some .directory := by
  obtain ⟨w₁, problem, w₂, hprepare, hfailed, -, hleft, hstuck⟩ := smallDelving_stages
  obtain ⟨hretain, place, entry, hfind, hdeeper, hrun⟩ := perform_run_deep hprepare hstuck
  obtain ⟨below, -, rfl, -⟩ := Disk.deeper?_eq_some hdeeper
  rw [hfailed, hleft] at hfind
  cases hfind
  refine ⟨hretain, w₁, problem, w₂, hprepare, hfailed, ?_, ?_, ?_⟩
  all_goals rw [hrun]
  · exact assemble_warnings hprepare
  · dsimp only
    rw [Disk.get?_eraseUpTo_of_leading (List.prefix_append _ _), hfailed]
    exact (Disk.find_eq_ok.1 hleft).2

end Build

end ProviderKit
