import ProviderKit.Proofs.Build.Handover
import ProviderKit.Proofs.Process.Outcome

/-!
# What a build makes of the failure of a tool

A build heeds its tools: if one fails, or ends with another status than zero, this is what the build
ends with, unless cleaning up gets stuck (`Build.heeded_of_callsMade`). For tools that are run on a
machine `run_reports_tools` adds what the outcome of a command is: a result, a problem of the
command, or one of the surprises of `Command.Unreported`. An output that is not UTF-8 is one of
them, and it takes the place of the report on a tool that has failed (`run_leaves_unreported`).
-/

namespace ProviderKit

namespace Run

variable {α β : Type}

/-- The outcome of a run takes up the outcome of a tool: its failure, or the problem of a status
other than zero with the output of the tool. -/
def Heeded (called : Except Failure CommandResult) (outcome : Except Failure α) : Prop :=
  match called with
  | .error e => outcome = .error e
  | .ok result => result.status = 0 ∨
      ∃ p, outcome = .error (.problem p) ∧ p.report.category = .command ∧
        p.report.output = result.output

/-- The outcome of a run takes up the outcomes of all the tools that it calls. -/
def Heeds (runner : Runner) (run : Run α) : Prop :=
  ∀ w, ∃ made, (run.perform w).2.calls = w.calls ++ made ∧
    ∀ call ∈ made, Heeded (runner call.command call.disk).1 (run.perform w).1

/-- What a failure takes up is taken up by every run that ends with it. -/
theorem Heeded.of_error {called : Except Failure CommandResult} {e : Failure}
    (h : Heeded called (.error e : Except Failure α)) :
    Heeded called (.error e : Except Failure β) := by
  unfold Heeded at *
  cases called with
  | error e' =>
    cases h
    rfl
  | ok result =>
    refine h.imp_right ?_
    rintro ⟨p, hp, hreport⟩
    cases hp
    exact ⟨p, rfl, hreport⟩

/-- Where a run gave a result its tools ended well, and there is nothing to take up. -/
theorem Heeded.of_ok {called : Except Failure CommandResult} {a : α}
    (h : Heeded called (.ok a : Except Failure α)) (outcome : Except Failure β) :
    Heeded called outcome := by
  unfold Heeded at *
  cases called with
  | error e' => cases h
  | ok result =>
    obtain hzero | ⟨p, hp, -⟩ := h
    · exact .inl hzero
    · cases hp

variable {runner : Runner}

/-- A run that calls nothing has nothing to take up. -/
theorem Heeds.of_same {run : Run α} (h : Relates (Same World.calls) run) : Heeds runner run :=
  fun w => ⟨[], by rw [List.append_nil]; exact h w, fun _ hcall => nomatch hcall⟩

/-- A sequence takes up what its runs take up: behind a first run that failed there is no second
one. -/
theorem Heeds.bind {x : Run α} {f : α → Run β} (hx : Heeds runner x)
    (hf : ∀ a, Heeds runner (f a)) : Heeds runner (x >>= f) := by
  intro w
  obtain ⟨made, hcalls, hheeded⟩ := hx w
  rcases hfirst : x.perform w with ⟨e | a, w'⟩
  all_goals rw [hfirst] at hcalls hheeded
  · rw [perform_bind_error f hfirst]
    exact ⟨made, hcalls, fun call hcall => (hheeded call hcall).of_error⟩
  · rw [perform_bind_ok f hfirst]
    obtain ⟨more, hmore, hheeded'⟩ := hf a w'
    refine ⟨made ++ more, by rw [hmore, hcalls, List.append_assoc], fun call hcall => ?_⟩
    obtain hcall | hcall := List.mem_append.1 hcall
    · exact (hheeded call hcall).of_ok _
    · exact hheeded' call hcall

/-- Of two alternatives the one taken takes up what it calls. -/
theorem Heeds.ite {c : Prop} [Decidable c] {x y : Run α} (hx : Heeds runner x)
    (hy : Heeds runner y) : Heeds runner (if c then x else y) := by
  split
  · exact hx
  · exact hy

/-- A tool whose result is checked is taken up, if its failure is reported with its output. -/
theorem heeds_tool (runner : Runner) (records : Records) (command : Command)
    (m : CommandResult → Message) {failure : CommandResult → Failure}
    (hfailure : ∀ result, ∃ p, failure result = .problem p ∧ p.report.category = .command ∧
      p.report.output = result.output) :
    Heeds runner (do
      let result ← call runner records command
      if result.succeeded then say (m result) else fail (failure result)) := by
  intro w
  have hone : ∀ {outcome : Except Failure Unit}, Heeded (runner command w.disk).1 outcome →
      ∀ call ∈ [(⟨command, w.disk⟩ : Call)],
        Heeded (runner call.command call.disk).1 outcome := by
    intro outcome h call hcall
    obtain rfl := List.mem_singleton.1 hcall
    exact h
  refine ⟨[⟨command, w.disk⟩], ?_⟩
  have hcall := perform_call runner records command w
  rcases houtcome : (runner command w.disk).1 with e | result
  all_goals rw [houtcome] at hcall hone
  · rw [perform_bind_error _ hcall]
    exact ⟨rfl, hone rfl⟩
  rw [perform_bind_ok _ hcall]
  by_cases hzero : result.status = 0
  · rw [if_pos (by simp [CommandResult.succeeded, hzero])]
    exact ⟨rfl, hone (.inl hzero)⟩
  · obtain ⟨p, hp, hreport⟩ := hfailure result
    rw [if_neg (by simp [CommandResult.succeeded, hzero]), perform_fail, hp]
    exact ⟨rfl, hone (.inr ⟨p, rfl, hreport⟩)⟩

end Run

namespace Build

open Run (Heeds Heeded)

variable {α : Type}

/-- A stage takes up what its body takes up. -/
theorem stage_heeds {runner : Runner} (s : Stage) {body : Run α} (h : Heeds runner body) :
    Heeds runner (stage s body) := by
  unfold stage
  refine .bind (.of_same fun _ => rfl) fun _ => ?_
  exact .bind h fun _ => .bind (.of_same fun _ => rfl) fun _ => .of_same fun _ => rfl

/-- Compiling takes up the outcome of the compiler. -/
theorem compile_heeds (b : Build) (package : Package) (staging : Path) :
    Heeds b.runner (b.compile package staging) := by
  unfold compile
  refine .bind (.of_same fun _ => rfl) fun _ => ?_
  exact Run.heeds_tool b.runner _ _ (fun result => .toolOutput result.output)
    fun result => ⟨_, rfl, rfl, rfl⟩

/-- Installing the dependencies takes up the outcome of the package manager. -/
theorem installDependencies_heeds (b : Build) (package : Package) (staging : Path) :
    Heeds b.runner (b.installDependencies package staging) := by
  unfold installDependencies
  refine .bind (.of_same fun _ => rfl) fun strategy => ?_
  refine .bind (.of_same fun _ => rfl) fun _ => ?_
  exact Run.heeds_tool b.runner _ _ (fun result => .toolOutput result.output)
    fun result => ⟨_, rfl, rfl, rfl⟩

/-- The work in the staging directory takes up the outcomes of both. -/
theorem assemble_heeds [Interpreter] (b : Build) (package : Package) (staging : Path) :
    Heeds b.runner (b.assemble package staging) := by
  have hR := sameCalls_unaffected
  have hrest : Heeds b.runner (do
      let version ← stage .resolveVersion (b.stagePackage package staging)
      stage .stageFiles (b.stageFiles package staging)
      stage .installDependencies (b.installDependencies package staging)
      let archive ← stage .archive (b.packArchive package staging)
      pure (⟨staging, archive, package.name, version⟩ : Artifact)) := by
    refine .bind (stage_heeds _ (.of_same (stagePackage_relates hR _ _ _))) fun _ => ?_
    refine .bind (stage_heeds _ (.of_same (stageFiles_relates hR _ _ _))) fun _ => ?_
    refine .bind (stage_heeds _ (installDependencies_heeds _ _ _)) fun _ => ?_
    refine .bind (stage_heeds _ (.of_same (packArchive_relates hR _ _ _))) fun _ => ?_
    exact .of_same fun _ => rfl
  unfold assemble
  exact .ite (.bind (stage_heeds _ (compile_heeds _ _ _)) fun _ => hrest) hrest

/-- The outcome of a build takes up the outcome of each tool that it has called, unless cleaning up
gets stuck: it calls none before the staging directory is made. -/
theorem heeded_of_callsMade [Interpreter] {b : Build} {w : World} (htidy : ¬ b.Stuck w)
    {call : Call} (h : call ∈ b.callsMade w) :
    Heeded (b.runner call.command call.disk).1 (b.run.perform w).1 := by
  have hprepare := prepare_relates sameCalls_unaffected (fun _ _ => rfl) b w
  rcases hprepared : b.prepare.perform w with ⟨e | ⟨package, staging⟩, w₁⟩
  all_goals
    rw [hprepared] at hprepare
    have hsame : w₁.calls = w.calls := hprepare
  · rw [callsMade, perform_run_of_error hprepared] at h
    dsimp only at h
    rw [hsame, List.drop_length] at h
    cases h
  · obtain ⟨made, hcalls, hheeded⟩ := b.assemble_heeds package staging w₁
    rw [callsMade, perform_run_world hprepared, cleanUp_calls, hcalls, hsame, List.drop_left] at h
    rw [perform_run_tidy hprepared htidy]
    exact hheeded call h

/-- A command that holds no null character and is run with variables that hold none gives the status
of its process, fails with a problem of the command, or goes unreported, for one of three known
reasons. A build whose tools are run in this way ends with the failure of a tool that it has called.
If the tool exits with another status than zero, or is killed, this is a problem of the command with
the output of the tool, or if the output is not UTF-8 just that. But if a tool has left something in
the staging directory that is more levels down than the interpreter removes, the build ends with
that in place of all this. -/
theorem run_reports_tools [Interpreter] (machine : Machine) (s : Surroundings) (base : Environment)
    (limit : Option TimeLimit) :
    (∀ (command : Command) (disk : Disk), command.IsPlain base →
      (∀ r, (machine.runner s base limit command disk).1 = .ok r →
        ∃ process ending output text, command.Runs machine s base limit disk process ending ∧
          ending.finished? = some (r.status, output) ∧ Utf8.decode output = .ok text ∧
          r.output = text.normalizeNewlines) ∧
      (∀ e, (machine.runner s base limit command disk).1 = .error e →
        (∃ p, e = .problem p ∧ p.report.category = .command) ∨
          command.Unreported machine s base limit disk e) ∧
      ∀ e, command.Unreported machine s base limit disk e →
        (machine.runner s base limit command disk).1 = .error e) ∧
    ∀ (b : Build) (w : World), b.runner = machine.runner s base limit →
      (b.Stuck w → (b.run.perform w).1 = .error (.disk .tooDeep)) ∧
      (¬ b.Stuck w → ∀ call ∈ b.callsMade w,
        (∀ e, (b.runner call.command call.disk).1 = .error e → (b.run.perform w).1 = .error e) ∧
        ∀ process ending status output,
          call.command.Runs machine s base limit call.disk process ending →
          ending.finished? = some (status, output) → status ≠ 0 →
          (∀ text, Utf8.decode output = .ok text →
            ∃ p, (b.run.perform w).1 = .error (.problem p) ∧ p.report.category = .command ∧
              p.report.output = text.normalizeNewlines) ∧
          ∀ fault, Utf8.decode output = .error fault →
            (b.run.perform w).1 = .error (.undecodable fault)) := by
  constructor
  · intro command disk hplain
    exact ⟨fun r h => Command.runner_ok h, fun e h => Command.runner_error hplain h,
      fun e h => h.runner hplain⟩
  · intro b w hrunner
    refine ⟨run_of_stuck, fun htidy call hcall => ?_⟩
    have hheeded := heeded_of_callsMade htidy hcall
    constructor
    · intro e he
      rw [he] at hheeded
      exact hheeded
    intro process ending status output hruns hfinished hstatus
    have houtcome : (b.runner call.command call.disk).1 = Command.result status output := by
      rw [hrunner, hruns.runner, Command.outcome_of_finished hfinished]
    rw [houtcome, Command.result] at hheeded
    constructor
    · intro text hdecode
      rw [hdecode] at hheeded
      exact hheeded.resolve_left hstatus
    · intro fault hdecode
      rw [hdecode] at hheeded
      exact hheeded

/-! ## A tool that fails -/

/-- Whether a command is plain. -/
def isPlain (command : Command) (base : Environment) : Bool :=
  command.args.all (fun t => !Disk.hasNull t) &&
    (base.overlay command.overrides).all fun v =>
      !Disk.hasNull v.1 && !Disk.hasNull v.2 && !v.1.contains (.char '=')

/-- What has been checked is plain. -/
theorem plain_of_isPlain {command : Command} {base : Environment}
    (h : isPlain command base = true) : command.IsPlain base := by
  simp only [isPlain, Bool.and_eq_true, List.all_eq_true, Bool.not_eq_true'] at h
  refine ⟨h.1, fun v hv => ?_⟩
  obtain ⟨⟨hname, hvalue⟩, hequals⟩ := h.2 v hv
  exact ⟨hname, hvalue, by simpa using hequals⟩

/-- Whether a machine runs the process of a call to an ending. -/
def isRun (machine : Machine) (s : Surroundings) (base : Environment) (call : Call)
    (ending : Ending) : Bool :=
  match call.command.process? s base call.disk with
  | none => false
  | some process => process.fault?.isNone && decide ((machine process none call.disk).1 = ending)

/-- What has been checked is run. -/
theorem runs_of_isRun {machine : Machine} {s : Surroundings} {base : Environment} {call : Call}
    {ending : Ending} (h : isRun machine s base call ending = true) :
    ∃ process, call.command.Runs machine s base none call.disk process ending := by
  unfold isRun at h
  split at h
  · cases h
  next process hfound =>
    rw [Bool.and_eq_true, Option.isNone_iff_eq_none, decide_eq_true_eq] at h
    exact ⟨process, hfound, h.1, h.2⟩

/-- A machine on which each process prints something and fails. -/
def failing (output : Bytes) : Machine := fun _ _ disk => (.exited 1 output, disk)

/-- Where the small project is built with such a machine. -/
def smallSurroundings : Surroundings where
  workingDirectory := ⟨.single, ["p"]⟩

/-- The search path of its tools. -/
def smallBase : Environment := [("PATH", "/b")]

/-- The small project, with a package manager to be found. -/
def smallWithTool : World where
  disk :=
    { entries :=
        ([Text.ofString "b"], .directory) ::
        ([Text.ofString "b", "npm"], .file .runnable (.bytes [])) :: smallDisk.entries }

/-- The build of the small project with a package manager that fails. -/
def smallFailing (output : Bytes) : Build :=
  { small with runner := (failing output).runner smallSurroundings smallBase none }

/-- The package manager of the small project prints a word and fails. Its call is plain, nothing
goes unreported, and the build fails with the word. -/
theorem run_reports_tools_small : ∃ call ∈ (smallFailing [110, 111]).callsMade smallWithTool,
    call.command.IsPlain smallBase ∧
    (∀ e, ¬ call.command.Unreported (failing [110, 111]) smallSurroundings smallBase none
      call.disk e) ∧
    ∃ p, ((smallFailing [110, 111]).run.perform smallWithTool).1 = .error (.problem p) ∧
      p.report.category = .command ∧ p.report.output = "no" := by
  have hchecks : ((smallFailing [110, 111]).endsTidily smallWithTool &&
      ((smallFailing [110, 111]).callsMade smallWithTool).any (fun call =>
        isPlain call.command smallBase &&
          isRun (failing [110, 111]) smallSurroundings smallBase call (.exited 1 [110, 111]))) =
      true := by
    rewrite [callsMade]
    decide +kernel
  rw [Bool.and_eq_true] at hchecks
  obtain ⟨call, hcall, hcheck⟩ := List.any_eq_true.1 hchecks.2
  rw [Bool.and_eq_true] at hcheck
  have hplain := plain_of_isPlain hcheck.1
  obtain ⟨process, hruns⟩ := runs_of_isRun hcheck.2
  have hdecode : Utf8.decode [110, 111] = .ok "no" := by decide +kernel
  obtain ⟨hcommands, hbuilds⟩ :=
    run_reports_tools (failing [110, 111]) smallSurroundings smallBase none
  obtain ⟨-, hstatus⟩ := (hbuilds (smallFailing [110, 111]) smallWithTool rfl).2
    (not_stuck_of_check hchecks.1) call hcall
  refine ⟨call, hcall, hplain, ?_, ?_⟩
  · intro e he
    have herror := (hcommands call.command call.disk hplain).2.2 e he
    rw [hruns.runner, Command.outcome_of_finished rfl, Command.result, hdecode] at herror
    cases herror
  · exact (hstatus process _ 1 [110, 111] hruns rfl (by decide)).1 "no" hdecode

/-- The package manager prints a byte that is not UTF-8 and fails. Its call is plain, it exits with
a status, and the build fails without a problem: what the status was and what else was printed goes
unreported. -/
theorem run_leaves_unreported : ∃ call ∈ (smallFailing [255]).callsMade smallWithTool,
    call.command.IsPlain smallBase ∧
    (∃ process, call.command.Runs (failing [255]) smallSurroundings smallBase none call.disk
      process (.exited 1 [255])) ∧
    (∀ r, ((smallFailing [255]).runner call.command call.disk).1 ≠ .ok r) ∧
    ∀ p, ((smallFailing [255]).runner call.command call.disk).1 ≠ .error (.problem p) ∧
      ((smallFailing [255]).run.perform smallWithTool).1 ≠ .error (.problem p) := by
  have hchecks : ((smallFailing [255]).endsTidily smallWithTool &&
      ((smallFailing [255]).callsMade smallWithTool).any (fun call =>
        isPlain call.command smallBase &&
          isRun (failing [255]) smallSurroundings smallBase call (.exited 1 [255]))) = true := by
    rewrite [callsMade]
    decide +kernel
  rw [Bool.and_eq_true] at hchecks
  obtain ⟨call, hcall, hcheck⟩ := List.any_eq_true.1 hchecks.2
  rw [Bool.and_eq_true] at hcheck
  obtain ⟨process, hruns⟩ := runs_of_isRun hcheck.2
  have hcalled : ∃ fault, ((smallFailing [255]).runner call.command call.disk).1 =
      .error (.undecodable fault) := by
    rcases hdecode : Utf8.decode [255] with fault | text
    · refine ⟨fault, ?_⟩
      exact hruns.runner.trans (by rw [Command.outcome_of_finished rfl, Command.result, hdecode])
    · have hinvalid : (Utf8.decode [255]).isOk = false := by decide +kernel
      rw [hdecode] at hinvalid
      cases hinvalid
  obtain ⟨fault, hfault⟩ := hcalled
  have hheeded := heeded_of_callsMade (not_stuck_of_check hchecks.1) hcall
  rw [hfault] at hheeded
  refine ⟨call, hcall, plain_of_isPlain hcheck.1, ⟨process, hruns⟩, ?_, fun p => ⟨?_, ?_⟩⟩
  · rw [hfault]
    rintro r ⟨⟩
  · rw [hfault]
    rintro ⟨⟩
  · rw [show _ = _ from hheeded]
    rintro ⟨⟩

end Build

end ProviderKit
