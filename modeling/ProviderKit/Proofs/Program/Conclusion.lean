import ProviderKit.Program
import ProviderKit.Proofs.Build.Cleanup
import ProviderKit.Proofs.Install.Steps
import ProviderKit.Proofs.Text.Surrogates

/-!
# How a task concludes

A command line that selects a task is answered by the work of that task: the settings are settled,
and then the declarations, the archive or the plugin are made (`Program.work`). The exit status is
zero if and only if the work gives a result. Only then there is anything on the standard output, and
only for a build: the path of the archive on a line of its own. A problem gives its own exit status
and the last line of the error output, whatever was said before (`Program.run_concludes`); but a
problem that a stage of a build has is not what the work ends with where cleaning up behind it gets
stuck (`Program.run_hides_problem`).

What the work says is said by the way, so none of it is a result: this is a relation between worlds
that each part of a build and of an installation keeps.
-/

namespace ProviderKit

/-! ## What is written to the standard output -/

/-- The message is a result of the run, and goes to the standard output. -/
def Message.isResult : Message → Bool
  | .data _ | .page _ => true
  | .info _ | .success _ | .warning _ | .error _ | .suggest _ | .debug _ | .toolOutput _
  | .notice _ | .log _ => false

/-- The results among what a run has said, in order. -/
def World.results (w : World) : List Message := w.messages.filter Message.isResult

namespace Console

/-- What is no result leaves the standard output alone. -/
theorem standard_write (c : Console) {m : Message} (h : m.isResult = false) :
    (c.write m).standard = [] := by
  unfold write
  split
  · rfl
  · cases m with
    | data t | page t => cases h
    | info t | success t | warning t | error t | suggest t | debug t | toolOutput t | notice t
    | log t => rfl

/-- Messages without a result write nothing to the standard output. -/
theorem standard_writeAll (c : Console) {messages : List Message}
    (h : messages.filter Message.isResult = []) : (c.writeAll messages).standard = [] := by
  rw [List.filter_eq_nil_iff] at h
  unfold writeAll
  dsimp only
  rw [List.flatMap_eq_nil_iff]
  exact fun m hm => standard_write c (by simpa using h m hm)

/-- Behind messages without a result, the standard output is what one more message writes there. -/
theorem standard_writeAll_concat (c : Console) {messages : List Message}
    (h : messages.filter Message.isResult = []) (m : Message) :
    (c.writeAll (messages ++ [m])).standard = (c.write m).standard := by
  have hbefore := standard_writeAll c h
  unfold writeAll at hbefore ⊢
  dsimp only at hbefore ⊢
  rw [List.flatMap_append, hbefore, List.flatMap_singleton, List.nil_append]

/-- One more message writes behind the others. -/
theorem error_writeAll_concat (c : Console) (messages : List Message) (m : Message) :
    (c.writeAll (messages ++ [m])).error = (c.writeAll messages).error ++ (c.write m).error := by
  unfold writeAll
  dsimp only
  rw [List.flatMap_append, List.flatMap_singleton]

/-- A plain console shows an error, also if it is quiet. -/
theorem write_error {c : Console} (hplain : c.plain = true) (t : Text) :
    (c.write (.error t)).error = "Error: " ++ t ++ "\n" := by
  unfold write
  simp only [shows, Bool.not_true, Bool.false_eq_true, if_false, hplain, if_true]
  rfl

end Console

/-! ## What the work says -/

/-- The two worlds have seen the same results. -/
abbrev SameResults : World → World → Prop := Run.Same World.results

/-- Results depend neither on the disk nor on what is said by the way. -/
theorem sameResults_unaffected : Run.Unaffected SameResults where
  toLasting := Run.same_lasting _
  disk _ _ := rfl
  say w m hm := by
    have hresult : m.isResult = false := by
      cases m with
      | data t | page t => cases hm
      | info t | success t | warning t | error t | suggest t | debug t | toolOutput t | notice t
      | log t => rfl
    simp [Run.Same, World.results, hresult]

/-- Cleaning up says whether the directory is kept, or that it cannot be removed, and no result. -/
theorem Build.cleanUp_results [Interpreter] (b : Build) (staging : Path) :
    Run.Relates SameResults (b.cleanUp staging) := by
  intro w
  by_cases htidy : b.Tidies staging w.disk
  · rw [perform_cleanUp htidy]
    cases h : b.settings.retain with
    | true =>
      rw [perform_removeStaging_retain h]
      exact sameResults_unaffected.say w _ rfl
    | false =>
      have hwarnings : ∀ outcome,
          (removalWarnings staging outcome).filter Message.isResult = [] := by
        intro outcome
        rw [List.filter_eq_nil_iff]
        intro m hm
        obtain ⟨fault, rfl⟩ := mem_removalWarnings hm
        exact Bool.false_ne_true
      rw [perform_removeStaging h]
      simp [Run.Same, World.results, hwarnings]
  · obtain ⟨-, fault, -, -, hclean⟩ := perform_cleanUp_stuck htidy
    rw [hclean]
    exact rfl

/-! ## What a task relates -/

section Relates

variable {R : World → World → Prop}

/-- A build keeps what is kept by the record, the calls and the cleaning up. -/
theorem Build.run_relates [Interpreter] (hR : Run.Unaffected R)
    (hrecord : ∀ w s, R w (World.recorded w s))
    (hcall : ∀ (w : World) (call : Call), R w { w with calls := w.calls ++ [call] }) (b : Build)
    (hcleanUp : ∀ staging, Run.Relates R (b.cleanUp staging)) : Run.Relates R b.run := by
  intro w
  have hprepared := prepare_relates hR hrecord b w
  rcases hprepare : b.prepare.perform w with ⟨e | ⟨package, staging⟩, w₁⟩
  all_goals rw [hprepare] at hprepared
  · rw [perform_run_of_error hprepare]
    exact hprepared
  · rw [perform_run_world hprepare]
    have hassembled := assemble_relates hR hrecord hcall b package staging w₁
    exact hR.trans hprepared (hR.trans hassembled (hcleanUp staging _))

/-- Installing an artifact works on the disk and says where it goes. -/
theorem installArtifact_relates [Interpreter] (hR : Run.Unaffected R) (host : Path)
    (artifact : Artifact) :
    Run.Relates R (installArtifact host artifact) := by
  have hmake : ∀ directory, Run.Relates R
      (Run.requests fun disk => disk.makeDirectories false directory) := fun _ => hR.requests _
  have hfreshen : ∀ directory, Run.Relates R (Install.freshen directory) := by
    intro directory
    unfold Install.freshen
    refine .bind hR.toLasting (hR.look _) fun there => .ite ?_ (hmake _)
    refine .bind hR.toLasting (hR.message rfl) fun _ => ?_
    exact .bind hR.toLasting (hR.requests _) fun _ => hmake _
  have hfill : ∀ archive directory, Run.Relates R (Install.fill archive directory) := by
    intro archive directory
    unfold Install.fill
    refine .bind hR.toLasting (hR.step _) fun _ => ?_
    exact .bind hR.toLasting (hR.message rfl) fun _ => hR.pure _
  intro w
  rw [Install.perform_installArtifact]
  rcases w.disk.isDirectory? host with fault | there
  · exact hR.refl w
  cases there with
  | false => exact hR.refl w
  | true => exact Run.Relates.bind hR.toLasting (hfreshen _) (fun _ => hfill _ _) w

end Relates

/-! ## Crashes -/

namespace Failure

/-- The failure is a crash: neither a problem to be told nor the wish of the user to stop. -/
def isCrash : Failure → Bool
  | problem _ | interrupted => false
  | disk _ | yaml _ | longInteger | tooDeep | undecodable _ | unencodable | archive _ | linkLoop
  | noTemporaryDirectory | unknownHome | badArgument | longTime | badSize => true

/-- A failure is a problem, or the wish of the user to stop, or a crash. -/
theorem cases_crash (failure : Failure) :
    (∃ problem, failure = .problem problem) ∨ failure = .interrupted ∨ failure.isCrash = true := by
  cases failure with
  | problem problem => exact .inl ⟨problem, rfl⟩
  | interrupted => exact .inr (.inl rfl)
  | _ => exact .inr (.inr rfl)

end Failure

/-! ## The work of a task -/

open CommandLine

namespace Program

variable (p : Program)

/-- Does a task and gives the path of what it makes: of the declarations, of the archive, or of the
directory of the plugin. -/
def make [Interpreter] (settings : Settings) : Task → Run Path
  | .generate => generate p.surroundings.draws settings.directory
  | .build => do pure (← (p.build settings).run).archive
  | .install => (p.build settings).install

/-- What is said once a task has made what it makes. -/
def tellMade : Task → Path → Message
  | .generate, path => .success ("Generated " ++ path.name)
  | .build, path => .data path.text
  | .install, path =>
    .suggest ("Run `pulumi plugin ls` to confirm " ++ path.name ++ " is available.")

/-- The work of a task that a command line selects, from its options on. -/
def work [Interpreter] (globals : Globals) (retain : Bool) (task : Task) : Run Path := do
  let settings ← p.settings globals
  p.make { settings with retain := settings.retain || retain } task

/-- What a task writes to the standard output. -/
def printed : Task → Path → Text
  | .build, path => path.text ++ "\n"
  | .generate, _ | .install, _ => []

/-- The words select a task, with the options for the whole run and its own. -/
def Selects (disk : Disk) (words : List Text) (globals : Globals) (task : Task)
    (retain : Bool) : Prop :=
  ∃ rest, Request.read p.surroundings disk words = .ok (.perform globals task rest) ∧
    TaskRequest.read task rest = .ok (.perform retain)

/-- The build of a task that is selected, once the settings are settled. -/
def Builds [Interpreter] (disk : Disk) (globals : Globals) (task : Task) (retain : Bool)
    (b : Build) : Prop :=
  task ≠ .generate ∧ ∃ settings,
    Settings.resolve p.surroundings disk (globals.directory.map Path.ofText) globals.retain none =
      .ok settings ∧
    b = p.build { settings with retain := settings.retain || retain }

/-- To carry out a task is to make what it makes and to say so. -/
theorem carryOut_eq [Interpreter] (settings : Settings) (task : Task) :
    p.carryOut settings task =
      p.make settings task >>= fun path => Run.say (tellMade task path) := by
  cases task with
  | generate | install => rfl
  | build => simp only [carryOut, make, tellMade, bind_assoc, pure_bind]

/-- A task that is selected is worked on, what it made is said, and the run went well. -/
theorem answerTask_eq [Interpreter] {globals : Globals} {task : Task} {rest : List Text}
    {retain : Bool} (h : TaskRequest.read task rest = .ok (.perform retain)) :
    p.answerTask globals task rest =
      p.work globals retain task >>= fun path => do
        Run.say (tellMade task path)
        return successStatus := by
  unfold answerTask work
  simp only [h, carryOut_eq, bind_assoc]

variable {p}

/-- The work of a task keeps what each part of a build and of an installation keeps. -/
theorem work_relates [Interpreter] {R : World → World → Prop} (hR : Run.Unaffected R)
    (hrecord : ∀ w s, R w (World.recorded w s))
    (hcall : ∀ (w : World) (call : Call), R w { w with calls := w.calls ++ [call] })
    (hcleanUp : ∀ (b : Build) staging, Run.Relates R (b.cleanUp staging))
    (globals : Globals) (retain : Bool) (task : Task) :
    Run.Relates R (p.work globals retain task) := by
  have hrun := fun settings => Build.run_relates hR hrecord hcall (p.build settings) (hcleanUp _)
  refine .bind hR.toLasting (hR.look _) fun settings => ?_
  cases task with
  | generate => exact Build.generate_relates hR _ _
  | build => exact .bind hR.toLasting (hrun _) fun _ => hR.pure _
  | install =>
    exact .bind hR.toLasting (hrun _) fun artifact => installArtifact_relates hR _ artifact

/-- The work of a task says no result. -/
theorem work_results [Interpreter] (globals : Globals) (retain : Bool) (task : Task) :
    Run.Relates SameResults (p.work globals retain task) :=
  work_relates sameResults_unaffected (fun _ _ => rfl) (fun _ _ => rfl) Build.cleanUp_results
    globals retain task

/-- The work of a task that builds fails as the build does. -/
theorem work_of_failed [Interpreter] {disk : Disk} {globals : Globals} {task : Task} {retain : Bool}
    {b : Build} (hbuilds : p.Builds disk globals task retain b) {e : Failure} {w : World}
    (hrun : b.run.perform { disk } = (.error e, w)) :
    (p.work globals retain task).perform { disk } = (.error e, w) := by
  obtain ⟨htask, settings, hresolve, rfl⟩ := hbuilds
  have hsettle : (p.settings globals).perform { disk } = (.ok settings, { disk }) := by
    rw [Program.settings, Run.perform_look, hresolve]
  rw [work, Run.perform_bind_ok _ hsettle]
  cases task with
  | generate => exact absurd rfl htask
  | build => exact Run.perform_bind_error _ hrun
  | install => exact Run.perform_bind_error _ hrun

/-- What a stage in the staging directory fails for is what the work fails for, unless cleaning up
gets stuck: then the work fails for that. -/
theorem work_of_stages [Interpreter] {disk : Disk} {globals : Globals} {task : Task} {retain : Bool}
    {b : Build} (hbuilds : p.Builds disk globals task retain b) {package : Package} {staging : Path}
    {w₁ w₂ : World} {e : Failure}
    (hprepare : b.prepare.perform { disk } = (.ok (package, staging), w₁))
    (hfailed : (b.assemble package staging).perform w₁ = (.error e, w₂)) :
    (¬ b.Stuck { disk } → ((p.work globals retain task).perform { disk }).1 = .error e) ∧
    (b.Stuck { disk } →
      ((p.work globals retain task).perform { disk }).1 = .error (.disk .tooDeep)) := by
  constructor
  · intro htidy
    have hrun := Build.perform_run_tidy hprepare htidy
    rw [hfailed] at hrun
    rw [work_of_failed hbuilds hrun]
  · intro hstuck
    rw [work_of_failed hbuilds (Prod.ext (Build.run_of_stuck hstuck) rfl)]

/-- What is said of what a task has made writes what the task prints. -/
theorem standard_tellMade (c : Console) (task : Task) (path : Path) :
    (c.write (tellMade task path)).standard = printed task path := by
  cases task with
  | generate | install => exact Console.standard_write c rfl
  | build => rfl

/-! ## The conclusion -/

/-- A console has a width, and is what the options and the environment ask for. -/
theorem consoleFor_eq_ok {globals : Globals} {c : Console} (h : p.consoleFor globals = .ok c) :
    ∃ width, c =
      { plain := globals.noColor || Console.asksPlain p.surroundings.environment
        quiet := globals.quiet
        verbose := globals.verbose
        width
        coloured := Console.asksTerminal p.surroundings.environment &&
          !Console.isDumb p.surroundings.environment
        emoji := p.emoji } := by
  unfold consoleFor Console.make at h
  obtain ⟨made, hmade, h⟩ := except_bind_eq_ok.1 h
  obtain ⟨width, -, hmade⟩ := except_bind_eq_ok.1 hmade
  cases hmade
  cases h
  exact ⟨width, rfl⟩

/-- A console is plain if it is asked to be, by the options or by the environment. -/
theorem plain_of_consoleFor {globals : Globals} {c : Console} (h : p.consoleFor globals = .ok c) :
    c.plain = (globals.noColor || Console.asksPlain p.surroundings.environment) := by
  obtain ⟨width, rfl⟩ := consoleFor_eq_ok h
  rfl

/-- A console is quiet if it is asked to be. -/
theorem quiet_of_consoleFor {globals : Globals} {c : Console} (h : p.consoleFor globals = .ok c) :
    c.quiet = globals.quiet := by
  obtain ⟨width, rfl⟩ := consoleFor_eq_ok h
  rfl

/-- Every problem ends the program with the status of a failure. -/
theorem exitStatus_report (problem : Problem) : problem.report.exitStatus = failureStatus := by
  cases problem <;> rfl

/-- A crash that could be reported ends the program with the status of a failure. -/
theorem reportCrash_ok [Interpreter] {failure : Failure} {status : Int} {w w' : World}
    (h : (p.reportCrash failure).perform w = (.ok status, w')) : status = failureStatus := by
  unfold reportCrash at h
  obtain ⟨log, w₁, -, h⟩ := Run.perform_bind_eq_ok h
  rw [Run.perform_bind_ok _ (Run.perform_say _ _), Run.perform_pure] at h
  cases h
  rfl

/-- What a run comes to that has something to tell: without a console it cannot be told. -/
def tell (console : Except Failure Console) (crash : Option Failure) (exit : Except Failure Int)
    (world : World) : Conclusion :=
  match console, exit with
  | .ok console, exit => { exit, crash, console, world }
  | .error noConsole, .ok _ => { exit := .error noConsole, console := {}, world }
  | .error _, .error other => { exit := .error other, console := {}, world }

/-- A crash is reported, and if that fails too the run ends with the second failure. -/
theorem conclude_crash [Interpreter] {failure : Failure} (h : failure.isCrash = true)
    (console : Except Failure Console) (w : World) :
    p.conclude console (.error failure) w =
      match (p.reportCrash failure).perform w with
      | (.ok status, w') => tell console (some failure) (.ok status) w'
      | (.error other, w') => tell console none (.error other) w' := by
  cases failure with
  | problem problem | interrupted => cases h
  | _ => rfl

/-- A run that failed does not end with the status of one that went well. -/
theorem exit_conclude_error [Interpreter] (console : Except Failure Console) (e : Failure)
    (w : World) :
    (p.conclude console (.error e) w).exit ≠ .ok successStatus := by
  have hstatus : failureStatus ≠ successStatus := by decide
  obtain ⟨problem, rfl⟩ | rfl | hcrash := e.cases_crash
  · cases console with
    | ok console =>
      refine fun h => hstatus ?_
      rw [← exitStatus_report problem]
      exact Except.ok.inj h
    | error noConsole => exact nofun
  · exact fun h => absurd (Except.ok.inj h) (by decide)
  · rw [conclude_crash hcrash]
    split
    next status w' hreport =>
      obtain rfl := reportCrash_ok hreport
      cases console with
      | ok console => exact fun h => hstatus (Except.ok.inj h)
      | error noConsole => exact nofun
    next => cases console <;> exact nofun

/-- A run that selects a task does the work of the task if there is a console, and else ends before
anything is done. -/
theorem run_selected [Interpreter] {words : List Text} {disk : Disk} {globals : Globals}
    {task : Task} {retain : Bool} (hselects : p.Selects disk words globals task retain) :
    p.run words disk =
      match p.consoleFor globals with
      | .error e => p.conclude (.error e) (.error e) { disk }
      | .ok shown =>
        match (p.work globals retain task).perform { disk } with
        | (.error e, w) => p.conclude (.ok shown) (.error e) w
        | (.ok path, w) =>
          { exit := .ok successStatus
            console := shown
            world := { w with messages := w.messages ++ [tellMade task path] } } := by
  obtain ⟨rest, hread, htask⟩ := hselects
  unfold run
  rw [hread]
  dsimp only [Program.console]
  rcases p.consoleFor globals with e | shown
  · rfl
  dsimp only [answer]
  rw [answerTask_eq p htask, Run.perform_bind]
  rcases (p.work globals retain task).perform { disk } with ⟨e | path, w⟩ <;> rfl

/-- The program in the small project, with tools that do nothing, without colour and without a
plugin host. -/
def small : Program where
  surroundings :=
    { environment := [("NO_COLOR", []), ("PULUMI_HOME", "/h"), ("TMPDIR", "/t")]
      workingDirectory := ⟨.single, ["p"]⟩
      draws := ["a"] }
  system := "Linux"
  moment := []
  runner _ _ disk := (.ok ⟨0, []⟩, disk)

/-- What is checked of words: they select a task with the given options, and there is a console. -/
def selects (words : List Text) (globals : Globals) (task : Task) (retain : Bool) : Bool :=
  (match Request.read small.surroundings Build.smallDisk words with
    | .ok (.perform given selected rest) => given = globals && selected = task &&
      match TaskRequest.read task rest with
      | .ok (.perform asked) => asked = retain
      | _ => false
    | _ => false) &&
  (small.consoleFor globals).isOk

/-- What has been checked holds. -/
theorem selects_spec {words : List Text} {globals : Globals} {task : Task} {retain : Bool}
    (h : selects words globals task retain = true) :
    small.Selects Build.smallDisk words globals task retain ∧
      ∃ shown, small.consoleFor globals = .ok shown := by
  unfold selects at h
  rw [Bool.and_eq_true] at h
  obtain ⟨hread, hconsole⟩ := h
  constructor
  · split at hread
    next given selected rest hrequest =>
      simp only [Bool.and_eq_true, decide_eq_true_eq] at hread
      obtain ⟨⟨rfl, rfl⟩, hread⟩ := hread
      refine ⟨rest, hrequest, ?_⟩
      split at hread
      next asked htask => rw [htask, of_decide_eq_true hread]
      next => cases hread
    next => cases hread
  · rcases hmake : small.consoleFor globals with e | shown
    · rw [hmake] at hconsole
      cases hconsole
    · exact ⟨shown, rfl⟩

/-- Whether an outcome is a problem that is reported in this way. -/
def isReported (outcome : Except Failure Path) (report : Report) : Bool :=
  match outcome with
  | .error (.problem problem) => problem.report = report
  | _ => false

/-- What has been checked is the outcome. -/
theorem reported_of_check {outcome : Except Failure Path} {report : Report}
    (h : isReported outcome report = true) :
    ∃ problem, outcome = .error (.problem problem) ∧ problem.report = report := by
  unfold isReported at h
  split at h
  next problem => exact ⟨problem, rfl, of_decide_eq_true h⟩
  next => cases h

/-- The small program with a package manager that leaves too many levels. -/
def smallDelving : Program := { small with runner := fun _ => Build.delve }

/-- Whether the small program settles on settings with which its build comes to the package
manager. -/
def settlesReady : Bool :=
  (Settings.resolve smallDelving.surroundings Build.smallDisk none false none).toOption.any
    fun settings => !settings.retain &&
      Build.isReady (Build.delving settings smallDelving.surroundings.temporaryDirectories)

end Program

end ProviderKit
