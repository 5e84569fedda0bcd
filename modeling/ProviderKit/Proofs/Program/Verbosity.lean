import Mathlib.Data.List.Flatten
import ProviderKit.Proofs.CommandLine.Flags
import ProviderKit.Proofs.Program.Conclusion
import ProviderKit.Proofs.Text.Lines

/-!
# What a quiet or a verbose run keeps to itself

Whether a run is quiet or verbose is asked by its console alone, and only when what was said is
shown. Two command lines that select one task with the same options, but for being quiet or verbose,
do the same work on the same disk, and end with the same exit status and the same results
(`Program.run_observed`). On a plain console the lines of the quieter run are among those of the
other one, in the same order, and every warning and every error is still there.
-/

namespace ProviderKit

/-! ## Alarms -/

namespace Message

/-- The message says that something went wrong. -/
def isAlarm : Message → Bool
  | .warning _ | .error _ => true
  | .info _ | .success _ | .suggest _ | .debug _ | .toolOutput _ | .data _ | .notice _
  | .page _ | .log _ => false

/-- The message ends its line. Only a text that is shown as it is might not. -/
def EndsLine : Message → Prop
  | .notice t => t.IsWhole
  | .info _ | .success _ | .warning _ | .error _ | .suggest _ | .debug _ | .toolOutput _ | .data _
  | .page _ | .log _ => True

/-- The lines of a message, as they stand on the error output of a plain console. -/
def lines (m : Message) : List Text :=
  Text.endedLines (m.line ++ Text.ofString "\n").escapeSurrogates

end Message

/-- The warnings and errors among what a run has said, in order. -/
def World.alarms (w : World) : List Message := w.messages.filter Message.isAlarm

/-- Everything that was said ends its line. -/
def World.EndsLines (w : World) : Prop := ∀ m ∈ w.messages, m.EndsLine

/-! ## The lines of the error output -/

/-- A text with its surrogates escaped is whole if the text is. -/
theorem Text.IsWhole.escapeSurrogates {t : Text} (h : t.IsWhole) : t.escapeSurrogates.IsWhole := by
  rcases h with rfl | ⟨s, rfl⟩
  · exact .inl rfl
  · exact .inr ⟨Text.escapeSurrogates s, Text.escapeSurrogates_append s _⟩

namespace Console

variable (c : Console) {m : Message}

/-- The lines that a message writes to the error output. -/
def errorLines (m : Message) : List Text := (c.write m).error.escapeSurrogates.endedLines

variable {c}

/-- A plain console writes whole lines. -/
theorem isWhole_write (hplain : c.plain = true) (hends : m.EndsLine) :
    (c.write m).error.IsWhole := by
  unfold write
  simp only [hplain, if_true]
  split
  · exact .inl rfl
  · cases m with
    | data t | page t => exact .inl rfl
    | notice t => exact hends
    | toolOutput t =>
      dsimp only [endLine]
      split
      next h => exact Text.isWhole_of_hasSuffix h
      next => exact Text.isWhole_concat t
    | info t | success t | warning t | error t | suggest t | debug t | log t =>
      exact Text.isWhole_concat _

/-- A plain console writes the line of an alarm, whether it is quiet or verbose. -/
theorem write_alarm (hplain : c.plain = true) (halarm : m.isAlarm = true) :
    (c.write m).error = m.line ++ "\n" := by
  cases m with
  | warning t | error t =>
    simp only [write, shows, hplain, Bool.not_true, Bool.false_eq_true, if_false, if_true]
  | info t | success t | suggest t | debug t | toolOutput t | data t | notice t | page t | log t =>
    cases halarm

/-- The results of a run do not depend on whether it is quiet or verbose. -/
theorem standard_write_with (c : Console) (quiet verbose : Bool) (m : Message) :
    (({ c with quiet, verbose } : Console).write m).standard = (c.write m).standard := by
  by_cases hresult : m.isResult = true
  · cases m with
    | data t | page t => rfl
    | info t | success t | warning t | error t | suggest t | debug t | toolOutput t | notice t
    | log t => cases hresult
  · rw [Bool.not_eq_true] at hresult
    rw [standard_write _ hresult, standard_write _ hresult]

/-- What a console shows when it is quieter and less verbose it shows anyway. -/
theorem shows_of_shows_with {quiet verbose : Bool} (hquiet : c.quiet = true → quiet = true)
    (hverbose : verbose = true → c.verbose = true)
    (h : ({ c with quiet, verbose } : Console).shows m = true) : c.shows m = true := by
  have hquiet' : quiet = false → c.quiet = false := by
    intro hloud
    by_contra hc
    rw [Bool.not_eq_false] at hc
    exact absurd (hquiet hc) (by simp [hloud])
  cases m with
  | debug t | log t => exact hverbose h
  | info t | success t | suggest t =>
    simp only [shows, Bool.not_eq_true'] at h ⊢
    exact hquiet' h
  | toolOutput t =>
    simp only [shows, Bool.and_eq_true, Bool.not_eq_true'] at h ⊢
    exact ⟨hquiet' h.1, h.2⟩
  | warning t | error t | data t | notice t | page t => rfl

/-- A console that is quieter and less verbose writes all the lines of a message or none of them. -/
theorem errorLines_with_sublist {quiet verbose : Bool} (hquiet : c.quiet = true → quiet = true)
    (hverbose : verbose = true → c.verbose = true) (m : Message) :
    (({ c with quiet, verbose } : Console).errorLines m).Sublist (c.errorLines m) := by
  unfold errorLines
  by_cases hshows : ({ c with quiet, verbose } : Console).shows m = true
  · have hsame : ({ c with quiet, verbose } : Console).write m = c.write m := by
      unfold write
      rw [hshows, shows_of_shows_with hquiet hverbose hshows]
      rfl
    rw [hsame]
  · rw [Bool.not_eq_true] at hshows
    have hnothing : (({ c with quiet, verbose } : Console).write m).error = [] := by
      unfold write
      rw [hshows]
      rfl
    rw [hnothing]
    exact List.nil_sublist _

/-- The lines of messages are those of the first one, those of the second one, and so on. -/
theorem endedLines_writeAll (hplain : c.plain = true) {messages : List Message}
    (hends : ∀ m ∈ messages, m.EndsLine) :
    (c.writeAll messages).error.escapeSurrogates.endedLines = messages.flatMap c.errorLines := by
  have hsplit : (c.writeAll messages).error.escapeSurrogates =
      messages.flatMap fun m => (c.write m).error.escapeSurrogates := List.flatMap_assoc
  rw [hsplit]
  exact Text.endedLines_flatMap fun m hm => (isWhole_write hplain (hends m hm)).escapeSurrogates

/-- The lines of the alarms among messages are written, whatever else is. -/
theorem alarms_sublist (hplain : c.plain = true) (messages : List Message) :
    ((messages.filter Message.isAlarm).flatMap Message.lines).Sublist
      (messages.flatMap c.errorLines) := by
  have halarms : (messages.filter Message.isAlarm).flatMap Message.lines =
      (messages.filter Message.isAlarm).flatMap c.errorLines := by
    refine List.flatMap_congr fun m hm => ?_
    rw [errorLines, write_alarm hplain (List.mem_filter.1 hm).2, Message.lines]
  rw [halarms]
  exact List.filter_sublist.flatMap _

end Console

/-! ## What is said ends its line -/

/-- That what was said ends its line stays so across the run. -/
abbrev KeepsLines : World → World → Prop := Run.Kept World.EndsLines

/-- One more message that ends its line. -/
theorem World.EndsLines.say {w : World} (h : w.EndsLines) {m : Message} (hm : m.EndsLine) :
    World.EndsLines { w with messages := w.messages ++ [m] } := by
  intro other hother
  rcases List.mem_append.1 hother with hbefore | hlast
  · exact h other hbefore
  · obtain rfl := List.mem_singleton.1 hlast
    exact hm

/-- What is said by the way ends its line. -/
theorem Message.EndsLine.of_isAside {m : Message} (h : m.isAside = true) : m.EndsLine := by
  cases m with
  | notice t => exact Text.isWhole_of_hasSuffix h
  | info t | success t | warning t | error t | suggest t | debug t | toolOutput t | data t
  | page t | log t => trivial

/-- Lines depend neither on the disk nor on what is said by the way. -/
theorem keepsLines_unaffected : Run.Unaffected KeepsLines where
  toLasting := Run.kept_lasting _
  disk _ _ h := h
  say _ _ hm h := h.say (.of_isAside hm)

/-- Cleaning up ends its lines. -/
theorem Build.cleanUp_keepsLines [Interpreter] (b : Build) (staging : Path) :
    Run.Relates KeepsLines (b.cleanUp staging) := by
  intro w h
  by_cases htidy : b.Tidies staging w.disk
  · rw [perform_cleanUp htidy]
    cases hretain : b.settings.retain with
    | true =>
      rw [perform_removeStaging_retain hretain]
      exact h.say trivial
    | false =>
      rw [perform_removeStaging hretain]
      intro m hm
      rcases List.mem_append.1 hm with hbefore | hwarning
      · exact h m hbefore
      · obtain ⟨fault, rfl⟩ := mem_removalWarnings hwarning
        trivial
  · obtain ⟨-, fault, -, -, hclean⟩ := perform_cleanUp_stuck htidy
    rw [hclean]
    exact h

namespace Program

open CommandLine

variable {p : Program}

/-- Writing a log says nothing. -/
theorem writeLog_keepsLines [Interpreter] (p : Program) (failure : Failure) :
    Run.Relates KeepsLines (p.writeLog failure) := by
  have hR := keepsLines_unaffected
  unfold writeLog
  refine .bind hR.toLasting (hR.step _) fun _ => ?_
  refine .bind hR.toLasting (hR.requests _) fun _ => ?_
  exact .bind hR.toLasting (hR.request _) fun _ => hR.pure _

/-- A conclusion adds at most an error to what was said. -/
theorem conclude_endsLines [Interpreter] (console : Except Failure Console)
    (outcome : Except Failure Int) {w : World} (h : w.EndsLines) :
    (p.conclude console outcome w).world.EndsLines := by
  rcases outcome with failure | status
  · obtain ⟨problem, rfl⟩ | rfl | hcrash := failure.cases_crash
    · cases console <;> exact h.say trivial
    · exact h
    · have hreport : ((p.reportCrash failure).perform w).2.EndsLines :=
        Run.kept_bind (I := World.EndsLines) (writeLog_keepsLines p failure w h)
          fun log w' h' => h'.say trivial
      rw [conclude_crash hcrash]
      rcases h' : (p.reportCrash failure).perform w with ⟨other | status, w'⟩
      all_goals rw [h'] at hreport; cases console <;> exact hreport
  · exact h

/-- Everything that a run of a task says ends its line. -/
theorem run_endsLines [Interpreter] {words : List Text} {disk : Disk} {globals : Globals}
    {task : Task} {retain : Bool} (hselects : p.Selects disk words globals task retain) :
    (p.run words disk).world.EndsLines := by
  have hstart : World.EndsLines { disk } := by
    intro m hm
    cases hm
  have hended : ((p.work globals retain task).perform { disk }).2.EndsLines :=
    work_relates keepsLines_unaffected (fun _ _ h => h) (fun _ _ h => h) Build.cleanUp_keepsLines
      globals retain task { disk } hstart
  rw [run_selected hselects]
  rcases p.consoleFor globals with e | shown
  · exact conclude_endsLines _ _ hstart
  rcases hwork : (p.work globals retain task).perform { disk } with ⟨e | path, w⟩
  all_goals rw [hwork] at hended
  · exact conclude_endsLines _ _ hended
  · refine hended.say ?_
    cases task <;> trivial

/-! ## Two consoles -/

/-- Whether a console is quiet or verbose is up to the options alone. -/
theorem consoleFor_with (globals : Globals) (quiet verbose : Bool) :
    p.consoleFor { globals with quiet, verbose } =
      (p.consoleFor globals).map fun c => { c with quiet, verbose } := by
  unfold consoleFor Console.make
  cases Console.widthOf p.surroundings.environment with
  | error e => rfl
  | ok width => rfl

/-- A run that has a console concludes the same with any other, but for the console. -/
theorem conclude_with [Interpreter] (c d : Console) (outcome : Except Failure Int) (w : World) :
    (p.conclude (.ok c) outcome w).console = c ∧
      p.conclude (.ok d) outcome w = { p.conclude (.ok c) outcome w with console := d } := by
  rcases outcome with failure | status
  · obtain ⟨problem, rfl⟩ | rfl | hcrash := failure.cases_crash
    · exact ⟨rfl, rfl⟩
    · exact ⟨rfl, rfl⟩
    · rw [conclude_crash hcrash, conclude_crash hcrash]
      rcases (p.reportCrash failure).perform w with ⟨other | status, w'⟩ <;> exact ⟨rfl, rfl⟩
  · exact ⟨rfl, rfl⟩

/-- A run without a console shows what it can on a plain one. -/
theorem console_conclude_error [Interpreter] (noConsole : Failure) (outcome : Except Failure Int)
    (w : World) :
    (p.conclude (.error noConsole) outcome w).console = {} := by
  rcases outcome with failure | status
  · obtain ⟨problem, rfl⟩ | rfl | hcrash := failure.cases_crash
    · rfl
    · rfl
    · rw [conclude_crash hcrash]
      rcases (p.reportCrash failure).perform w with ⟨other | status, w'⟩ <;> rfl
  · rfl

/-- Being quiet or verbose changes nothing but the console, and if there is no console nothing at
all. -/
theorem run_with [Interpreter] {words others : List Text} {disk : Disk} {globals : Globals}
    {task : Task} {retain quiet verbose : Bool} (hwords : p.Selects disk words globals task retain)
    (hothers : p.Selects disk others { globals with quiet, verbose } task retain) :
    (∃ shown, p.consoleFor globals = .ok shown ∧
      (p.run words disk).console = shown ∧
      p.run others disk = { p.run words disk with console := { shown with quiet, verbose } }) ∨
    ((p.run words disk).console = {} ∧ p.run others disk = p.run words disk) := by
  have hwork :
      p.work { globals with quiet, verbose } retain task = p.work globals retain task := rfl
  have hconsole : p.consoleFor { globals with quiet, verbose } =
      (p.consoleFor globals).map fun c => { c with quiet, verbose } :=
    consoleFor_with globals quiet verbose
  rw [run_selected hwords, run_selected hothers, hwork, hconsole]
  rcases p.consoleFor globals with e | shown
  · exact .inr ⟨console_conclude_error e _ _, rfl⟩
  refine .inl ⟨shown, rfl, ?_⟩
  dsimp only [Except.map]
  rcases (p.work globals retain task).perform { disk } with ⟨e | path, w⟩
  · exact conclude_with _ _ _ _
  · exact ⟨rfl, rfl⟩

end Program

namespace Conclusion

/-- The lines that a run wrote to the error output. -/
def errorLines (c : Conclusion) : List Text := c.output.error.endedLines

/-- The lines of a run are those that its console writes for each message. -/
theorem errorLines_eq {c : Conclusion} (hplain : c.console.plain = true)
    (hends : c.world.EndsLines) :
    c.errorLines = c.world.messages.flatMap c.console.errorLines :=
  Console.endedLines_writeAll hplain hends

/-- Whether a run is quiet or verbose, its results are the same. -/
theorem standard_with (c : Conclusion) (quiet verbose : Bool) :
    ({ c with console := { c.console with quiet, verbose } } : Conclusion).output.standard =
      c.output.standard := by
  show c.world.messages.flatMap _ = c.world.messages.flatMap _
  exact List.flatMap_congr fun m _ => Console.standard_write_with c.console quiet verbose m

end Conclusion

namespace Program

open CommandLine

variable {p : Program}

/-- Two command lines that select the same task and differ only in being quiet or verbose, in an
environment or with an option that asks for a plain console. The runs end alike, with the same crash
if there is one, with the same record and disk, and with the same standard output. On the error
output of the quieter and less verbose one are lines of the other one in the same order, the records
of the log among them, and the lines of every warning and of every error are written in any case. -/
theorem run_observed [Interpreter] {words others : List Text} {disk : Disk} {globals : Globals}
    {task : Task} {retain quiet verbose : Bool}
    (hplain : (globals.noColor || Console.asksPlain p.surroundings.environment) = true)
    (hwords : p.Selects disk words globals task retain)
    (hothers : p.Selects disk others { globals with quiet, verbose } task retain) :
    let one := p.run words disk
    let other := p.run others disk
    other.exit = one.exit ∧ other.crash = one.crash ∧ other.world = one.world ∧
      other.output.standard = one.output.standard ∧
      ((globals.quiet = true → quiet = true) → (verbose = true → globals.verbose = true) →
        other.errorLines.Sublist one.errorLines) ∧
      (one.world.alarms.flatMap Message.lines).Sublist other.errorLines := by
  intro one other
  have hends : one.world.EndsLines := run_endsLines hwords
  -- Either both runs get a console, and these differ in what they keep back, or neither gets one.
  rcases run_with hwords hothers with ⟨shown, hmake, hconsole, hother⟩ | ⟨hconsole, hother⟩
  · have hshown : shown.plain = true := (plain_of_consoleFor hmake).trans hplain
    have hone : one.errorLines = one.world.messages.flatMap shown.errorLines := by
      rw [← hconsole]
      exact Conclusion.errorLines_eq (by rw [hconsole]; exact hshown) hends
    have hlines : other.errorLines =
        one.world.messages.flatMap ({ shown with quiet, verbose } : Console).errorLines := by
      show (p.run others disk).errorLines = _
      rw [hother]
      exact Conclusion.errorLines_eq hshown hends
    have hstandard : other.output.standard = one.output.standard := by
      show (p.run others disk).output.standard = _
      rw [hother, ← hconsole]
      exact Conclusion.standard_with one quiet verbose
    have hrest : other.exit = one.exit ∧ other.crash = one.crash ∧ other.world = one.world := by
      show (p.run others disk).exit = _ ∧ (p.run others disk).crash = _ ∧
        (p.run others disk).world = _
      rw [hother]
      exact ⟨rfl, rfl, rfl⟩
    refine ⟨hrest.1, hrest.2.1, hrest.2.2, hstandard, fun hquiet hverbose => ?_, ?_⟩
    · have hasked : shown.quiet = globals.quiet := quiet_of_consoleFor hmake
      have htold : shown.verbose = globals.verbose := by
        obtain ⟨width, rfl⟩ := consoleFor_eq_ok hmake
        rfl
      rw [hlines, hone]
      refine List.Sublist.flatMap_right _ fun m _ => ?_
      exact Console.errorLines_with_sublist (by rwa [hasked]) (by rwa [htold]) m
    · rw [hlines]
      exact Console.alarms_sublist (c := { shown with quiet, verbose }) hshown _
  · have hone : one.errorLines = one.world.messages.flatMap one.console.errorLines :=
      Conclusion.errorLines_eq (by rw [hconsole]) hends
    have hsame : other = one := hother
    rw [hsame]
    refine ⟨rfl, rfl, rfl, rfl, fun _ _ => .refl _, ?_⟩
    rw [hone]
    exact Console.alarms_sublist (by rw [hconsole]) _

/-! ## Words that ask for it -/

/-- A flag in front of a command line that selects a task selects it too, with the flag set. -/
theorem selects_flag {words : List Text} {disk : Disk} {globals : Globals} {task : Task}
    {retain : Bool} {flag : Text} {switch : Switch} (hflag : (flag, switch) ∈ flags)
    (h : p.Selects disk words globals task retain) :
    p.Selects disk (flag :: words) (withFlag switch globals) task retain := by
  obtain ⟨rest, hread, htask⟩ := h
  refine ⟨rest, ?_, htask⟩
  obtain ⟨name, hglobals, hname⟩ := read_perform_iff.1 hread
  refine read_perform_iff.2 ⟨name, ?_, hname⟩
  rw [readGlobals_flag hflag, hglobals]
  rfl

/-! ## A program that fails -/

/-- The small program with a tool that fails and takes the temporary directory away. -/
def sweeping : Program :=
  { small with
    runner := fun _ _ disk =>
      (.ok ⟨1, "E\n"⟩, { disk with
        entries := disk.entries.filter fun entry => entry.1.head? ≠ some (Text.ofString "t") }) }

/-- Asked to be quiet, the failing build ends with the same status. It still says why it failed, and
warns of its staging directory, in lines of the verbose build. -/
theorem run_observed_sweeping :
    (sweeping.run ["-q", "-v", "build"] Build.smallDisk).exit =
      (sweeping.run ["-v", "build"] Build.smallDisk).exit ∧
    (sweeping.run ["-q", "-v", "build"] Build.smallDisk).errorLines.Sublist
      (sweeping.run ["-v", "build"] Build.smallDisk).errorLines ∧
    (sweeping.run ["-v", "build"] Build.smallDisk).world.alarms.length = 2 ∧
    Text.ofString "Error: npm install exited with status 1" ∈
      (sweeping.run ["-q", "-v", "build"] Build.smallDisk).errorLines := by
  have hselects : selects ["build"] {} .build false = true := by decide +kernel
  have hbuild : sweeping.Selects Build.smallDisk ["build"] {} .build false :=
    (selects_spec hselects).1
  have hflags : (Text.ofString "-v", Switch.verbose) ∈ flags ∧
      (Text.ofString "-q", Switch.quiet) ∈ flags := by decide
  have hverbose := selects_flag hflags.1 hbuild
  have hquiet := selects_flag hflags.2 hverbose
  obtain ⟨hexit, -, -, -, hlines, halarms⟩ := run_observed rfl hverbose hquiet
  have hsaid : (sweeping.run ["-v", "build"] Build.smallDisk).world.alarms.length = 2 ∧
      Text.ofString "Error: npm install exited with status 1" ∈
        (sweeping.run ["-v", "build"] Build.smallDisk).world.alarms.flatMap Message.lines := by
    decide +kernel
  exact ⟨hexit, hlines (fun _ => rfl) id, hsaid.1, halarms.subset hsaid.2⟩

end Program

end ProviderKit
