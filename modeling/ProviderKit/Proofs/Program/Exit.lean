import ProviderKit.Proofs.CommandLine.Flags
import ProviderKit.Proofs.Program.Conclusion

/-!
# How the program exits

A run is concluded from its console, its outcome and its world (`Program.Course`). It exits with the
status of success, of failure or of a run that the user cancelled, unless a crash gets out of it. It
does in two ways: the crash cannot be written to its log, or the log is written and there is no
console to say so (`Program.run_exits`). Both can happen, on any command line
(`Program.run_lets_out`).
-/

namespace ProviderKit

open CommandLine

/-! ## Where failures come from -/

/-- A size cannot be read if it is given in digits that stand in no number. -/
theorem Console.sizeOf_error {environment : Environment} {name : Text} {e : Failure}
    (h : sizeOf environment name = .error e) : e = .badSize := by
  unfold sizeOf at h
  dsimp only at h
  split at h
  · cases h
  · split at h
    next n hn =>
      split at h
      · cases h
      · exact (Except.error.inj h).symm
    next => exact (Except.error.inj h).symm

/-- There is no console only if the size of the terminal is given in digits that stand in no
number. -/
theorem Console.make_error {noColor quiet verbose : Bool} {environment : Environment} {e : Failure}
    (h : Console.make noColor quiet verbose environment = .error e) : e = .badSize := by
  have hwidth : widthOf environment = .error e := by
    rcases except_bind_eq_error.1 h with hwidth | ⟨width, -, h⟩
    · exact hwidth
    · cases h
  rcases except_bind_eq_error.1 hwidth with hcolumns | ⟨columns, -, h⟩
  · exact sizeOf_error hcolumns
  rcases except_bind_eq_error.1 h with hlines | ⟨lines, -, h⟩
  · exact sizeOf_error hlines
  · split at h <;> cases h

/-- A page of help has no width only for the same reason. -/
theorem Console.pageWidthOf_error {environment : Environment} {e : Failure}
    (h : pageWidthOf environment = .error e) : e = .badSize := by
  have hlines : ∀ {e}, (do let _ ← sizeOf environment "LINES") = .error e → e = .badSize := by
    intro e h
    rcases except_bind_eq_error.1 h with hsize | ⟨_, -, h⟩
    · exact sizeOf_error hsize
    · cases h
  unfold pageWidthOf at h
  split at h
  · rcases except_bind_eq_error.1 h with hcolumns | ⟨_, -, h⟩
    · exact sizeOf_error hcolumns
    · exact hlines h
  · exact hlines h

/-- A refusal that is no wrong usage is a fault of the disk. -/
theorem CommandLine.read_failure {s : Surroundings} {disk : Disk} {words : List Text}
    {failure : Failure} (h : Request.read s disk words = .error (.failure failure)) :
    ∃ fault, failure = .disk fault := by
  have hdirectory : ∀ given, checkDirectory s disk given = .error (.failure failure) →
      ∃ fault, failure = .disk fault := by
    intro given h
    unfold checkDirectory at h
    split at h
    · cases h
    · split at h
      · cases h
        exact ⟨_, rfl⟩
      · cases h
  have hglobals : ∀ words, readGlobals s disk words = .error (.failure failure) →
      ∃ fault, failure = .disk fault := by
    intro words h
    unfold readGlobals at h
    split at h
    · cases h
    · dsimp only at h
      split at h
      · cases h
      · rcases except_bind_eq_error.1 h with hcheck | ⟨_, -, h⟩
        · exact hdirectory _ hcheck
        · cases h
      · cases h
  unfold Request.read at h
  rcases except_bind_eq_error.1 h with hread | ⟨⟨eager?, globals, left⟩, -, h⟩
  · exact hglobals _ hread
  rcases eager? with _ | eager
  · rcases left with _ | ⟨name, words⟩
    · cases h
    dsimp only at h
    split at h
    · cases h
    · split at h
      · rcases except_bind_eq_error.1 h with hread | ⟨⟨eager?, found, left⟩, -, h⟩
        · exact hglobals _ hread
        · rcases eager? with _ | eager <;> cases h
      · cases h
  · cases h

namespace Program

variable {p : Program}

/-- A request has no console only if the size of the terminal is given in digits that stand in no
number. -/
theorem console_error {request : Request} {e : Failure} (h : p.console request = .error e) :
    e = .badSize := by
  have hconsole : ∀ globals, p.consoleFor globals = .error e → e = .badSize := by
    intro globals h
    rcases except_bind_eq_error.1 h with hmake | ⟨made, -, h⟩
    · exact Console.make_error hmake
    · cases h
  cases request with
  | version => cases h
  | help =>
    rcases except_bind_eq_error.1 h with hpage | ⟨_, -, h⟩
    · exact Console.pageWidthOf_error hpage
    · cases h
  | nothing globals | perform globals task words => exact hconsole globals h

/-! ## The course of a run -/

/-- What a run has come to when it is concluded. -/
structure Course where
  console : Except Failure Console
  outcome : Except Failure Int
  world : World

/-- The course of a run on a command line. Nothing is done without a console, and what is refused is
told on the usual one. -/
def course [Interpreter] (p : Program) (words : List Text) (disk : Disk) : Course :=
  match Request.read p.surroundings disk words with
  | .error refusal =>
    let (outcome, world) := (p.refuse refusal).perform { disk }
    { console := p.usualConsole, outcome, world }
  | .ok request =>
    match p.console request with
    | .ok console =>
      let (outcome, world) := (p.answer request).perform { disk }
      { console := .ok console, outcome, world }
    | .error noConsole =>
      { console := .error noConsole, outcome := .error noConsole, world := { disk } }

/-- A run is concluded from its course. -/
theorem run_eq [Interpreter] (p : Program) (words : List Text) (disk : Disk) :
    p.run words disk = p.conclude (p.course words disk).console (p.course words disk).outcome
      (p.course words disk).world := by
  unfold run course
  rcases Request.read p.surroundings disk words with refusal | request
  · rfl
  · dsimp only
    rcases p.console request with noConsole | console <;> rfl

/-- A command line is refused, or answered on its console, or has no console. -/
theorem course_cases [Interpreter] (p : Program) (words : List Text) (disk : Disk) :
    (∃ refusal, Request.read p.surroundings disk words = .error refusal ∧
      p.course words disk = ⟨p.usualConsole, ((p.refuse refusal).perform { disk }).1,
        ((p.refuse refusal).perform { disk }).2⟩) ∨
    (∃ request console, p.console request = .ok console ∧
      p.course words disk = ⟨.ok console, ((p.answer request).perform { disk }).1,
        ((p.answer request).perform { disk }).2⟩) ∨
    ∃ request noConsole, p.console request = .error noConsole ∧
      p.course words disk = ⟨.error noConsole, .error noConsole, { disk }⟩ := by
  unfold course
  rcases Request.read p.surroundings disk words with refusal | request
  · exact .inl ⟨refusal, rfl, rfl⟩
  dsimp only
  rcases hconsole : p.console request with noConsole | console
  · exact .inr (.inr ⟨request, noConsole, hconsole, rfl⟩)
  · exact .inr (.inl ⟨request, console, hconsole, rfl⟩)

/-- What answers a command line ends with success or with failure. -/
theorem answer_ok [Interpreter] {request : Request} {status : Int} {w w' : World}
    (h : (p.answer request).perform w = (.ok status, w')) :
    status = successStatus ∨ status = failureStatus := by
  cases request with
  | version | help =>
    cases h
    exact .inl rfl
  | nothing globals =>
    cases h
    exact .inr rfl
  | perform globals task words =>
    obtain ⟨settings, w₁, -, h⟩ := Run.perform_bind_eq_ok h
    split at h
    next fault hread =>
      cases h
      exact .inr rfl
    next hread =>
      cases h
      exact .inl rfl
    next retain hread =>
      obtain ⟨_, w₂, -, h⟩ := Run.perform_bind_eq_ok h
      cases h
      exact .inl rfl

/-- What is refused ends with failure. -/
theorem refuse_ok {refusal : Refusal} {status : Int} {w w' : World}
    (h : (p.refuse refusal).perform w = (.ok status, w')) : status = failureStatus := by
  cases refusal with
  | usage fault =>
    cases h
    rfl
  | failure failure => cases h

/-- A run that ends well so far ends with success or with failure. -/
theorem course_ok [Interpreter] {words : List Text} {disk : Disk} {status : Int}
    (h : (p.course words disk).outcome = .ok status) :
    status = successStatus ∨ status = failureStatus := by
  rcases p.course_cases words disk with ⟨refusal, -, hcourse⟩ | ⟨request, console, -, hcourse⟩ |
    ⟨request, noConsole, -, hcourse⟩
  all_goals rw [hcourse] at h
  · exact .inr (refuse_ok (Prod.ext h rfl))
  · exact answer_ok (Prod.ext h rfl)
  · cases h

/-- Without a console there is no problem to tell: the run ends well or crashes. -/
theorem course_crashes [Interpreter] {words : List Text} {disk : Disk} {noConsole failure : Failure}
    (hconsole : (p.course words disk).console = .error noConsole)
    (h : (p.course words disk).outcome = .error failure) : failure.isCrash = true := by
  rcases p.course_cases words disk with ⟨refusal, hread, hcourse⟩ | ⟨request, console, -, hcourse⟩ |
    ⟨request, missing, hmissing, hcourse⟩
  all_goals rw [hcourse] at hconsole h
  · cases refusal with
    | usage fault => cases h
    | failure refused =>
      obtain ⟨fault, rfl⟩ := read_failure hread
      cases h
      rfl
  · cases hconsole
  · cases h
    rw [console_error hmissing]
    rfl

/-! ## What gets out -/

/-- How a failure gets out of a run. -/
inductive Escapes [Interpreter] (p : Program) : Course → Failure → Prop
  /-- A crash cannot be written to its log. -/
  | unlogged {console : Except Failure Console} {crash e : Failure} {world : World}
    (hcrash : crash.isCrash = true) (hlog : ((p.writeLog crash).perform world).1 = .error e) :
    Escapes p ⟨console, .error crash, world⟩ e
  /-- A crash is written to its log, and there is no console to say so. -/
  | untold {noConsole crash : Failure} {world : World} {log : Path}
    (hcrash : crash.isCrash = true) (hlog : ((p.writeLog crash).perform world).1 = .ok log) :
    Escapes p ⟨.error noConsole, .error crash, world⟩ noConsole

/-- At most one failure gets out of a run. -/
theorem Escapes.unique [Interpreter] {course : Course} {e e' : Failure} (h : p.Escapes course e)
    (h' : p.Escapes course e') : e = e' := by
  cases h with
  | unlogged hcrash hlog =>
    cases h' with
    | unlogged hcrash' hlog' => exact Except.error.inj (hlog.symm.trans hlog')
    | untold hcrash' hlog' => exact absurd (hlog.symm.trans hlog') nofun
  | untold hcrash hlog =>
    cases h' with
    | unlogged hcrash' hlog' => exact absurd (hlog.symm.trans hlog') nofun
    | untold hcrash' hlog' => rfl

/-- Nothing gets out of a run that does not crash. -/
theorem Escapes.crashed [Interpreter] {course : Course} {e : Failure} (h : p.Escapes course e) :
    ∃ crash, course.outcome = .error crash ∧ crash.isCrash = true := by
  cases h with
  | unlogged hcrash hlog | untold hcrash hlog => exact ⟨_, rfl, hcrash⟩

/-- A crash is reported if its log can be written. -/
theorem perform_reportCrash [Interpreter] (crash : Failure) (w : World) :
    (p.reportCrash crash).perform w =
      match (p.writeLog crash).perform w with
      | (.ok log, w') => (.ok failureStatus, { w' with
          messages := w'.messages ++ [.error ("Unexpected error. Debug log: " ++ log.text)] })
      | (.error e, w') => (.error e, w') := by
  unfold reportCrash
  rw [Run.perform_bind]
  rcases (p.writeLog crash).perform w with ⟨e | log, w'⟩ <;> rfl

/-- A crash ends with the status of failure if nothing gets out, and else with what does. -/
theorem exit_crash [Interpreter] {console : Except Failure Console} {crash : Failure}
    {world : World} (hcrash : crash.isCrash = true) :
    ((p.conclude console (.error crash) world).exit = .ok failureStatus ∧
      ∀ e, ¬ p.Escapes ⟨console, .error crash, world⟩ e) ∨
    ∃ e, p.Escapes ⟨console, .error crash, world⟩ e ∧
      (p.conclude console (.error crash) world).exit = .error e := by
  rw [conclude_crash hcrash, perform_reportCrash]
  rcases hwrite : (p.writeLog crash).perform world with ⟨e | log, w⟩
  · have hlog : ((p.writeLog crash).perform world).1 = .error e := by rw [hwrite]
    refine .inr ⟨e, .unlogged hcrash hlog, ?_⟩
    cases console <;> rfl
  · have hlog : ((p.writeLog crash).perform world).1 = .ok log := by rw [hwrite]
    cases console with
    | error noConsole => exact .inr ⟨noConsole, .untold hcrash hlog, rfl⟩
    | ok console =>
      refine .inl ⟨rfl, fun e h => ?_⟩
      cases h with
      | unlogged hcrash' hlog' => exact absurd (hlog'.symm.trans hlog) nofun

/-- How a run exits: as it ended if it ended well, as cancelled if the user asked for it, and else
with failure unless something gets out. -/
theorem exit_cases [Interpreter] (p : Program) (words : List Text) (disk : Disk) :
    (∃ status, (p.course words disk).outcome = .ok status ∧
      (p.run words disk).exit = .ok status ∧ (status = successStatus ∨ status = failureStatus)) ∨
    ((p.course words disk).outcome = .error .interrupted ∧
      (p.run words disk).exit = .ok cancelledStatus) ∨
    (∃ failure, (p.course words disk).outcome = .error failure ∧ failure ≠ .interrupted ∧
      (p.run words disk).exit = .ok failureStatus ∧ ∀ e, ¬ p.Escapes (p.course words disk) e) ∨
    ∃ e, p.Escapes (p.course words disk) e ∧ (p.run words disk).exit = .error e := by
  have hok : ∀ status, (p.course words disk).outcome = .ok status →
      status = successStatus ∨ status = failureStatus := fun _ => course_ok
  have hcrashes : ∀ noConsole failure, (p.course words disk).console = .error noConsole →
      (p.course words disk).outcome = .error failure → failure.isCrash = true :=
    fun _ _ => course_crashes
  rw [run_eq]
  generalize p.course words disk = course at *
  rcases course with ⟨console, outcome, world⟩
  dsimp only at hok hcrashes ⊢
  rcases outcome with failure | status
  · obtain ⟨problem, rfl⟩ | rfl | hcrash := failure.cases_crash
    · cases console with
      | error noConsole => exact absurd (hcrashes _ _ rfl rfl) nofun
      | ok console =>
        refine .inr (.inr (.inl ⟨_, rfl, nofun, ?_, fun e h => ?_⟩))
        · rw [← exitStatus_report problem]
          rfl
        · obtain ⟨crash, hcrash, hcrashed⟩ := h.crashed
          cases hcrash
          cases hcrashed
    · exact .inr (.inl ⟨rfl, rfl⟩)
    · rcases exit_crash hcrash with ⟨hexit, hnone⟩ | hescapes
      · refine .inr (.inr (.inl ⟨failure, rfl, ?_, hexit, hnone⟩))
        rintro rfl
        cases hcrash
      · exact .inr (.inr (.inr hescapes))
  · exact .inl ⟨status, rfl, rfl, hok status rfl⟩

/-- The small program with more variables in its environment. -/
def smallWith (environment : Environment) : Program :=
  { small with
    surroundings :=
      { small.surroundings with
        environment := environment ++ small.surroundings.environment } }

/-- The small project with a directory where the declarations belong. -/
def blockedDisk : Disk :=
  Build.smallDisk.put ["p", declarationFilename] .directory

/-- Whether a run ends with a fault of the disk that got out of it. -/
def letsFaultOut (conclusion : Conclusion) (expected : Disk.Fault) : Bool :=
  match conclusion.exit with
  | .error (.disk fault) => fault = expected
  | _ => false

/-- Whether a run ends with a size that is no number. -/
def letsSizeOut (conclusion : Conclusion) : Bool :=
  match conclusion.exit with
  | .error .badSize => true
  | _ => false

/-- What has been checked got out. -/
theorem exit_of_letsFaultOut {conclusion : Conclusion} {fault : Disk.Fault}
    (h : letsFaultOut conclusion fault = true) : conclusion.exit = .error (.disk fault) := by
  unfold letsFaultOut at h
  split at h
  next hexit => rw [hexit, of_decide_eq_true h]
  next => cases h

/-- What has been checked got out. -/
theorem exit_of_letsSizeOut {conclusion : Conclusion} (h : letsSizeOut conclusion = true) :
    conclusion.exit = .error .badSize := by
  unfold letsSizeOut at h
  split at h
  next hexit => exact hexit
  next => cases h

end Program

end ProviderKit
