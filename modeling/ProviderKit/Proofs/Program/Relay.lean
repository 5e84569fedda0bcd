import Mathlib.Data.List.DropRight
import ProviderKit.Proofs.Build.Echo
import ProviderKit.Proofs.Program.Conclusion

/-!
# What becomes of the output of tools

The output of a tool reaches the user on one of two ways. If the tool has ended well its output is
relayed on the error output, between what the run writes of its own; if not, it stands in the last
message, and nowhere else, unless cleaning up behind the build gets stuck (`Program.run_relays`). To
say that it is nowhere else, a run is compared with all those whose tools do the same and print
other texts: what is written between the outputs is the same for them all.

The error output writes a lone surrogate by its number. So an output with one is not relayed as it
is (`Program.run_escapes`); any other one is.
-/

namespace ProviderKit

open Run (Plain Echoes Echoed Ends AllWell)

/-! ## Texts between texts -/

namespace Text

/-- A text, and behind it the texts of two lists in turn. -/
def woven (first : Text) (rest texts : List Text) : Text :=
  first ++ (List.zipWith (· ++ ·) texts rest).flatten

/-- What is woven is escaped part by part. -/
theorem escapeSurrogates_woven (first : Text) (rest texts : List Text) :
    (woven first rest texts).escapeSurrogates =
      woven first.escapeSurrogates (rest.map escapeSurrogates) (texts.map escapeSurrogates) := by
  have htail : escapeSurrogates (List.zipWith (· ++ ·) texts rest).flatten =
      (List.zipWith (· ++ ·) (texts.map escapeSurrogates)
        (rest.map escapeSurrogates)).flatten := by
    induction texts generalizing rest with
    | nil => rfl
    | cons t texts ih =>
      cases rest with
      | nil => rfl
      | cons s rest =>
        simp only [List.map_cons, List.zipWith_cons_cons, List.flatten_cons,
          escapeSurrogates_append, ih]
  rw [woven, escapeSurrogates_append, htail, woven]

/-- The output of a tool as it is relayed: as it is, with an end to its last line, unless it is
blank or the run is quiet. -/
def relayed (quiet : Bool) (t : Text) : Text :=
  if quiet || t.isBlank then []
  else if t.getLast? = some (.char '\n') then t else t ++ "\n"

/-- A text without lone surrogates is relayed without any. -/
theorem isWellFormed_relayed {t : Text} (quiet : Bool) (h : t.isWellFormed = true) :
    (relayed quiet t).isWellFormed = true := by
  unfold relayed
  split
  · rfl
  split
  · exact h
  · rw [isWellFormed_append, h]
    rfl

/-- A text ends with a line feed if that is its last code point. -/
theorem hasSuffix_lineFeed (t : Text) :
    t.hasSuffix "\n" = decide (t.getLast? = some (.char '\n')) := by
  have hline : (ofString "\n").reverse = [.char '\n'] := rfl
  rw [hasSuffix, hasPrefix, hline, List.getLast?_eq_head?_reverse]
  rcases t.reverse with _ | ⟨c, rest⟩
  · rfl
  by_cases hc : c = .char '\n'
  · cases rest <;> simp [hc, dropPrefix?]
  · simp [hc, dropPrefix?]

/-! ## Outputs behind a summary -/

/-- The message is a summary and, unless the output is blank, a line feed and the output up to its
last code point that is not white space. -/
inductive Appends (summary output : Text) : Text → Prop
  | blank (h : output.isBlank = true) : Appends summary output summary
  | shown {kept : Text} {c : CodePoint} {trail : Text} (hparts : output = kept ++ c :: trail)
    (hend : c.isBlank = false) (htrail : trail.isBlank = true) :
    Appends summary output (summary ++ "\n" ++ (kept ++ [c]))

/-- What is trimmed from a text that is not blank is the white space behind its last code point of
another kind. -/
theorem exists_trimEnd {t : Text} (h : t.isBlank = false) :
    ∃ (kept : Text) (c : CodePoint) (trail : Text), t = kept ++ c :: trail ∧ c.isBlank = false ∧
      trail.isBlank = true ∧ t.trimEnd = kept ++ [c] := by
  -- From the end of the text on: the first code point that is not white space ends what is kept.
  induction t using List.reverseRecOn with
  | nil => cases h
  | append_singleton t last ih =>
    by_cases hlast : last.isBlank = true
    · have ht : isBlank t = false := by simpa [isBlank, hlast] using h
      obtain ⟨kept, c, trail, hparts, hend, htrail, htrimmed⟩ := ih ht
      refine ⟨kept, c, trail ++ [last], ?_, hend, ?_, ?_⟩
      · rw [hparts, List.append_assoc, List.cons_append]
      · rw [isBlank] at htrail ⊢
        rw [List.all_append, htrail, List.all_cons, hlast]
        rfl
      · exact (List.rdropWhile_concat_pos _ _ _ hlast).trans htrimmed
    · refine ⟨t, last, [], rfl, Bool.eq_false_iff.2 hlast, rfl, ?_⟩
      exact List.rdropWhile_concat_neg _ _ _ hlast

end Text

/-- The message about a tool appends its output to the summary. -/
theorem appends_withToolOutput (summary output : Text) :
    Text.Appends summary output (withToolOutput summary output) := by
  unfold withToolOutput
  split
  next hblank => exact .blank hblank
  next hshown =>
    rw [Bool.not_eq_true] at hshown
    obtain ⟨kept, c, trail, hparts, hend, htrail, htrimmed⟩ := Text.exists_trimEnd hshown
    rw [htrimmed]
    exact .shown hparts hend htrail

/-! ## The report on a tool that failed -/

namespace Text

/-- The characters of a string make a line if there is no line feed among them. -/
theorem isLine_ofString (s : String) (h : '\n' ∉ s.toList) : (ofString s).IsLine := by
  refine ⟨fun hmem => ?_, isWellFormed_ofString s⟩
  obtain ⟨c, hc, heq⟩ := List.mem_map.1 hmem
  exact h (CodePoint.char.inj heq ▸ hc)

/-- Two lines make one if nothing is put between them. -/
theorem IsLine.append {s t : Text} (hs : s.IsLine) (ht : t.IsLine) : (s ++ t).IsLine := by
  refine ⟨?_, ?_⟩
  · rw [List.mem_append, not_or]
    exact ⟨hs.1, ht.1⟩
  · rw [isWellFormed_append, hs.2, ht.2]
    rfl

/-- A number is written on one line. -/
theorem isLine_ofInt (n : Int) : (ofInt n).IsLine := by
  have hnat : ∀ k : Nat, (ofNat k).IsLine := by
    intro k
    refine ⟨fun hmem => ?_, isWellFormed_ofChars _⟩
    obtain ⟨c, hc, heq⟩ := List.mem_map.1 hmem
    obtain rfl := CodePoint.char.inj heq
    exact absurd (Nat.isDigit_of_mem_toDigits (by decide) (by decide) hc) (by decide)
  cases n with
  | ofNat k => exact hnat k
  | negSucc k => exact (isLine_ofString "-" (by decide)).append (hnat (k + 1))

end Text

/-- The summary of the failure of a command. -/
inductive Command.SumsUp (command : Command) (status : Int) : Text → Prop
  | compiler (h : command.args.head? = some "tsc") : SumsUp command status
      ("Compilation failed (" ++ command.program ++ " tsc exited with status " ++
        Text.ofInt status ++ ")")
  | installer (h : command.args.head? ≠ some "tsc") : SumsUp command status
      (Text.join " " (command.program :: command.args) ++ " exited with status " ++
        Text.ofInt status)

/-- The report on a command that failed: it has the output as it was captured, and its message is a
summary of one line to which the output is appended. -/
structure Report.OnFailure (report : Report) (command : Command) (result : CommandResult) :
    Prop where
  category : report.category = .command
  exitStatus : report.exitStatus = failureStatus
  output : report.output = result.output
  message : ∃ summary, command.SumsUp result.status summary ∧ summary.IsLine ∧
    Text.Appends summary result.output report.message

/-- A problem that tells that a command failed is reported so. -/
theorem Problem.Tells.report {command : Command} {result : CommandResult} {p : Problem}
    (h : p.Tells command result) : p.report.OnFailure command result := by
  have hstatus := Text.isLine_ofInt result.status
  cases h with
  | compiler hargs hline =>
    refine ⟨rfl, rfl, rfl, _, .compiler hargs, ?_, appends_withToolOutput _ _⟩
    have hbegin := (Text.isLine_ofString "Compilation failed (" (by decide)).append hline
    have hmiddle := hbegin.append (Text.isLine_ofString " tsc exited with status " (by decide))
    exact (hmiddle.append hstatus).append (Text.isLine_ofString ")" (by decide))
  | installer hargs hline =>
    refine ⟨rfl, rfl, rfl, _, .installer hargs, ?_, appends_withToolOutput _ _⟩
    exact (hline.append (Text.isLine_ofString " exited with status " (by decide))).append hstatus

/-- The message about a command has no lone surrogate if the output has none. -/
theorem Report.OnFailure.isWellFormed_message {report : Report} {command : Command}
    {result : CommandResult} (h : report.OnFailure command result)
    (hwell : result.output.isWellFormed = true) : report.message.isWellFormed = true := by
  obtain ⟨summary, -, ⟨-, hsummary⟩, happends⟩ := h.message
  generalize report.message = message at happends
  cases happends with
  | blank => exact hsummary
  | shown hparts =>
    rw [hparts] at hwell
    simp only [Text.isWellFormed_append, Text.isWellFormed_cons, Bool.and_eq_true] at hwell
    simp [hsummary, hwell]

/-! ## What a console writes between the outputs -/

namespace Console

variable (c : Console)

/-- What a console writes of its own: in front of the first output of a tool, and behind each. -/
def own : List Message → Text × List Text
  | [] => ([], [])
  | m :: messages =>
    let (first, rest) := own messages
    match m.toolText? with
    | some _ => ([], first :: rest)
    | none => ((c.write m).error ++ first, rest)

/-- The output of a tool is written as it is relayed. -/
theorem error_write_toolOutput (t : Text) :
    (c.write (.toolOutput t)).error = t.relayed c.quiet := by
  have hend : endLine t = if t.getLast? = some (.char '\n') then t else t ++ "\n" := by
    rw [endLine, Text.hasSuffix_lineFeed]
    simp only [decide_eq_true_eq]
  unfold write shows Text.relayed
  rw [← hend]
  dsimp only
  cases c.quiet <;> by_cases hblank : t.isBlank = true <;> simp [hblank]

/-- The error output is what the console writes of its own, and the outputs of the tools. -/
theorem error_writeAll_eq_woven (messages : List Message) : (c.writeAll messages).error =
    Text.woven (c.own messages).1 (c.own messages).2
      ((messages.filterMap Message.toolText?).map (Text.relayed c.quiet)) := by
  show messages.flatMap (fun m => (c.write m).error) = _
  induction messages with
  | nil => rfl
  | cons m messages ih =>
    rw [List.flatMap_cons, ih]
    cases htext : m.toolText? with
    | some t =>
      obtain rfl : m = .toolOutput t := by
        cases m with
        | toolOutput s => exact congrArg Message.toolOutput (Option.some.inj htext)
        | info s | success s | warning s | error s | suggest s | debug s | data s | notice s
        | page s | log s => cases htext
      rw [error_write_toolOutput]
      simp only [own, htext, List.filterMap_cons, List.map_cons, Text.woven,
        List.zipWith_cons_cons, List.flatten_cons, List.nil_append, List.append_assoc]
    | none =>
      simp only [own, htext, List.filterMap_cons, Text.woven, List.append_assoc]

/-- Behind each output stands one text. -/
theorem length_own (messages : List Message) :
    (c.own messages).2.length = (messages.filterMap Message.toolText?).length := by
  induction messages with
  | nil => rfl
  | cons m messages ih =>
    cases htext : m.toolText? with
    | some t => simp only [own, htext, List.filterMap_cons, List.length_cons, ih]
    | none => simp only [own, htext, List.filterMap_cons, ih]

/-- What the console writes of its own does not depend on what the tools have printed. -/
theorem own_hushed (messages : List Message) :
    c.own (messages.map Message.hushed) = c.own messages := by
  induction messages with
  | nil => rfl
  | cons m messages ih =>
    rw [List.map_cons, own, own, ih]
    cases m <;> rfl

/-- So it is the same for runs that go the same way. -/
theorem own_congr {other : Runner} {w w' : World} (h : Echoed other w w') :
    c.own w'.messages = c.own w.messages := by
  rw [← own_hushed, h.said, own_hushed]

end Console

/-! ## Builds -/

/-- If a call has failed it is the last one. -/
theorem Run.Ends.last {α : Type} {other : Runner} {stuck : Prop} {calls : List Call}
    {outcome outcome' : Except Failure α} (h : Ends other stuck calls outcome outcome')
    {call : Call} (hcall : call ∈ calls) {result : CommandResult}
    (hfails : call.Fails other result) : calls.getLast? = some call := by
  have hend : ∀ {before last}, calls = before ++ [last] → AllWell other before →
      calls.getLast? = some call := by
    rintro before last rfl hwell
    rcases List.mem_append.1 hcall with hbefore | hlast
    · exact absurd hfails (hwell call hbefore result)
    · obtain rfl := List.mem_singleton.1 hlast
      exact List.getLast?_concat
  cases h with
  | same outcome hwell => exact absurd hfails (hwell call hcall result)
  | failed hlast hwell _ _ => exact hend hlast hwell
  | replaced hlast hwell _ _ => exact hend hlast hwell

/-- If a call has failed and the run has not got stuck, the run ends with a problem that reports
it. -/
theorem Run.Ends.report {α : Type} {other : Runner} {stuck : Prop} {calls : List Call}
    {outcome outcome' : Except Failure α} (h : Ends other stuck calls outcome outcome')
    (hstuck : ¬ stuck) {call : Call} (hcall : call ∈ calls) {result : CommandResult}
    (hfails : call.Fails other result) :
    ∃ p, outcome' = .error (.problem p) ∧ p.report.OnFailure call.command result := by
  have hend := h.last hcall hfails
  cases h with
  | same outcome hwell => exact absurd hfails (hwell call hcall result)
  | failed hlast _ hfails' htells =>
    rw [hlast, List.getLast?_concat] at hend
    obtain rfl := Option.some.inj hend
    obtain rfl := Except.ok.inj (hfails.1.symm.trans hfails'.1)
    exact ⟨_, rfl, htells.report⟩
  | replaced _ _ _ h => exact absurd h hstuck

/-- If no call has failed the runs end in the same way. -/
theorem Run.Ends.eq_of_well {α : Type} {other : Runner} {stuck : Prop} {calls : List Call}
    {outcome outcome' : Except Failure α} (h : Ends other stuck calls outcome outcome')
    (hwell : AllWell other calls) : outcome' = outcome := by
  cases h with
  | same => rfl
  | failed hlast _ hfails _ => exact absurd hfails (hwell _ (by simp [hlast]) _)
  | replaced => rfl

/-- A build has passed on the outputs of the tools that have ended well, in the order of the calls.
If one fails it is the last one called, and unless cleaning up gets stuck the build ends with a
problem that reports it. -/
theorem Build.run_passes_on [Interpreter] {b : Build}
    (hstandard : b.strategies ⊆ InstallStrategy.standard) (disk : Disk) :
    (b.run.perform { disk }).2.toolTexts =
      (b.run.perform { disk }).2.calls.filterMap (·.printed? b.runner) ∧
    ∀ call ∈ (b.run.perform { disk }).2.calls, ∀ result, call.Fails b.runner result →
      (b.run.perform { disk }).2.calls.getLast? = some call ∧
      (¬ b.Stuck { disk } → ∃ p, (b.run.perform { disk }).1 = .error (.problem p) ∧
        p.report.OnFailure call.command result) := by
  obtain ⟨hechoed, hends⟩ : Echoed b.runner (b.run.perform { disk }).2 (b.run.perform { disk }).2 ∧
      Ends b.runner (b.Stuck { disk }) (b.run.perform { disk }).2.calls
        (b.run.perform { disk }).1 (b.run.perform { disk }).1 :=
    run_echoes hstandard (.refl _) { disk } { disk } ⟨rfl, rfl, rfl, rfl⟩ nofun
  exact ⟨hechoed.relayed, fun call hcall result hfails =>
    ⟨hends.last hcall hfails, fun hstuck => hends.report hstuck hcall hfails⟩⟩

/-! ## The error output -/

/-- What tools have printed stands on the error output of a run that has called them, and the rest
of the error output is the given texts, unless one of the tools has failed and the run got stuck. -/
structure Conclusion.Relays (c : Conclusion) (quiet : Bool) (runner : Runner) (stuck : Prop)
    (calls : List Call) (first : Text) (rest : List Text) : Prop where
  /-- The run has made the calls. -/
  called : c.world.calls = calls
  /-- There is one of the texts behind each of the outputs of the tools that have ended well. -/
  paired : rest.length = (calls.filterMap (·.printed? runner)).length
  /-- If no tool has failed these outputs are relayed, in the order of the calls, between the
  texts. -/
  relayed : AllWell runner calls → c.output.error = Text.woven first rest
    ((calls.filterMap (·.printed? runner)).map fun t => (t.relayed quiet).escapeSurrogates)
  /-- If one has failed it is the last one called. -/
  last : ∀ call ∈ calls, ∀ result, call.Fails runner result → calls.getLast? = some call
  /-- Behind the relayed outputs stands the message about it. -/
  failed : ∀ call ∈ calls, ∀ result, call.Fails runner result → ¬ stuck →
    c.exit = .ok failureStatus ∧
      ∃ problem : Problem, problem.report.OnFailure call.command result ∧
        c.output.error = Text.woven first rest
          ((calls.filterMap (·.printed? runner)).map fun t =>
            (t.relayed quiet).escapeSurrogates) ++
          ("Error: " ++ problem.message ++ "\n").escapeSurrogates ∧
        (result.output.isWellFormed = true →
          ("Error: " ++ problem.message ++ "\n").escapeSurrogates =
            "Error: " ++ problem.message ++ "\n")
  /-- An output without a lone surrogate is relayed as it is. -/
  relayed_exact : ∀ t ∈ calls.filterMap (·.printed? runner), t.isWellFormed = true →
    (t.relayed quiet).escapeSurrogates = t.relayed quiet

namespace Program

open CommandLine

variable {p : Program} {tools : Environment → Runner}

/-- The program with other tools. -/
def runningWith (p : Program) (tools : Environment → Runner) : Program := { p with runner := tools }

/-- The work of a task goes the same way whatever the tools print. It gets stuck where its build
does. -/
theorem make_echoes [Interpreter] (halike : ∀ e, Runner.Alike (p.runner e) (tools e))
    (settings : Settings) (task : Task) :
    Echoes (tools settings.environment) (p.build settings).Stuck
      (p.make settings task) ((p.runningWith tools).make settings task) := by
  have hbuild : (p.runningWith tools).build settings =
      (p.build settings).runningWith (tools settings.environment) := rfl
  have hstandard : (p.build settings).strategies ⊆ InstallStrategy.standard := List.Subset.refl _
  unfold make
  cases task with
  | generate => exact (generate_plain _ _).echoes
  | build =>
    dsimp only
    rw [hbuild]
    exact .bind (Build.run_echoes hstandard (halike _)) fun _ => (Plain.pure _).echoes
  | install =>
    dsimp only
    rw [hbuild]
    exact Build.install_echoes hstandard (halike _)

/-- Writing a crash to a log calls no tool. -/
theorem reportCrash_plain [Interpreter] (p : Program) (failure : Failure) :
    Plain (p.reportCrash failure) := by
  have hlog : Plain (p.writeLog failure) := by
    unfold writeLog
    refine .bind (.step _) fun _ => .bind (.step _) fun _ => ?_
    exact .bind (.step _) fun _ => .pure _
  unfold reportCrash
  exact .bind hlog fun _ => .bind (.say rfl) fun _ => .pure _

/-- What a run comes to once its work has ended. -/
def finish [Interpreter] (p : Program) (shown : Console) (task : Task)
    (outcome : Except Failure Path) (w : World) : Conclusion :=
  match outcome with
  | .error e => p.conclude (.ok shown) (.error e) w
  | .ok path =>
    { exit := .ok successStatus
      console := shown
      world := { w with messages := w.messages ++ [tellMade task path] } }

/-- A run that selects a task ends with what its work comes to. -/
theorem run_finish [Interpreter] {words : List Text} {disk : Disk} {globals : Globals} {task : Task}
    {retain : Bool} {shown : Console} {settings : Settings}
    (hselects : p.Selects disk words globals task retain)
    (hshown : p.consoleFor globals = .ok shown)
    (hsettings : Settings.resolve p.surroundings disk (globals.directory.map Path.ofText)
      globals.retain none = .ok settings) :
    p.run words disk =
      let made := (p.make { settings with retain := settings.retain || retain } task).perform
        { disk }
      p.finish shown task made.1 made.2 := by
  have hwork : (p.work globals retain task).perform { disk } =
      (p.make { settings with retain := settings.retain || retain } task).perform { disk } := by
    unfold work Program.settings
    refine Run.perform_bind_ok _ ?_
    rw [Run.perform_look, hsettings]
  rw [run_selected hselects, hshown, hwork]
  dsimp only
  unfold finish
  rcases (p.make _ task).perform { disk } with ⟨e | path, w⟩ <;> rfl

/-- What a run has to tell at its end calls no tool, and is the same with any tools. -/
theorem exists_finish [Interpreter] (p : Program) (shown : Console) (task : Task)
    (outcome : Except Failure Path) : ∃ told : Run Unit, Plain told ∧ ∀ tools w,
      ((p.runningWith tools).finish shown task outcome w).console = shown ∧
      ((p.runningWith tools).finish shown task outcome w).world = (told.perform w).2 := by
  rcases outcome with e | path
  · obtain ⟨problem, rfl⟩ | rfl | hcrash := e.cases_crash
    · exact ⟨_, .say (m := .error problem.message) rfl, fun _ _ => ⟨rfl, rfl⟩⟩
    · exact ⟨_, .pure (), fun _ _ => ⟨rfl, rfl⟩⟩
    · refine ⟨p.reportCrash e >>= fun _ => pure (),
        .bind (p.reportCrash_plain e) fun _ => .pure _, fun tools w => ?_⟩
      have hsame : (p.runningWith tools).reportCrash e = p.reportCrash e := rfl
      unfold finish
      dsimp only
      rw [conclude_crash hcrash, hsame]
      rcases hreport : (p.reportCrash e).perform w with ⟨failed | status, w'⟩
      · rw [Run.perform_bind_error _ hreport]
        exact ⟨rfl, rfl⟩
      · rw [Run.perform_bind_ok _ hreport]
        exact ⟨rfl, rfl⟩
  · refine ⟨_, .say (m := tellMade task path) ?_, fun _ _ => ⟨rfl, rfl⟩⟩
    cases task <;> rfl

/-- On the error output of a run that goes the same way as another one stand the outputs of its own
tools, between what is written there in both runs. -/
theorem error_of_echoed {other : Runner} {w : World} {c : Conclusion}
    (h : Echoed other w c.world) : c.output.error =
      Text.woven (c.console.own w.messages).1.escapeSurrogates
        ((c.console.own w.messages).2.map Text.escapeSurrogates)
        ((w.calls.filterMap (·.printed? other)).map fun t =>
          (t.relayed c.console.quiet).escapeSurrogates) := by
  have hprinted : c.world.messages.filterMap Message.toolText? =
      w.calls.filterMap (·.printed? other) := by
    rw [← h.calls]
    exact h.relayed
  show (c.console.writeAll c.world.messages).error.escapeSurrogates = _
  rw [Console.error_writeAll_eq_woven, Text.escapeSurrogates_woven, Console.own_congr _ h, hprinted,
    List.map_map]
  rfl

/-- In either run as many texts are written behind the outputs as there are outputs. -/
theorem length_own_of_echoed {other : Runner} {w w' : World} (h : Echoed other w w')
    (c : Console) : ((c.own w.messages).2.map Text.escapeSurrogates).length =
      (w.calls.filterMap (·.printed? other)).length := by
  rw [List.length_map, ← Console.own_congr c h, Console.length_own, ← h.calls]
  exact congrArg List.length h.relayed

/-- An output without lone surrogates has nothing to escape when it is relayed. -/
theorem relayed_exact (quiet : Bool) {t : Text} (h : t.isWellFormed = true) :
    (t.relayed quiet).escapeSurrogates = t.relayed quiet :=
  Text.escapeSurrogates_of_isWellFormed (Text.isWellFormed_relayed quiet h)

/-- Where no tool fails, the outputs stand between what both runs write until their end. -/
theorem relays_of_well {other : Runner} (stuck : Prop) {w : World} {c : Conclusion}
    (h : Echoed other w c.world) (hwell : AllWell other w.calls) :
    c.Relays c.console.quiet other stuck w.calls (c.console.own w.messages).1.escapeSurrogates
      ((c.console.own w.messages).2.map Text.escapeSurrogates) where
  called := h.calls
  paired := length_own_of_echoed h c.console
  relayed _ := error_of_echoed h
  last call hcall result hfails := absurd hfails (hwell call hcall result)
  failed call hcall result hfails := absurd hfails (hwell call hcall result)
  relayed_exact _ _ := relayed_exact _

/-- Where a tool fails, the outputs stand between what both runs write until then, and behind them
the one run tells that it failed, if it did not get stuck. -/
theorem relays_of_failed [Interpreter] {other : Runner} {stuck : Prop} {shown : Console}
    (hplain : shown.plain = true) (task : Task) {w w' : World} (h : Echoed other w w')
    {outcome outcome' : Except Failure Path} (hends : Ends other stuck w.calls outcome outcome')
    (hfailed : ¬ AllWell other w.calls) :
    (p.finish shown task outcome' w').Relays shown.quiet other stuck w.calls
      (shown.own w.messages).1.escapeSurrogates
      ((shown.own w.messages).2.map Text.escapeSurrogates) := by
  refine ⟨?_, length_own_of_echoed h shown, fun hwell => absurd hwell hfailed,
    fun call hcall result hfails => hends.last hcall hfails, ?_, fun _ _ => relayed_exact _⟩
  · obtain ⟨told, htold, hfinish⟩ := p.exists_finish shown task outcome'
    have hworld : (p.finish shown task outcome' w').world = (told.perform w').2 :=
      (hfinish p.runner w').2
    rw [hworld, htold.calls, h.calls]
  · intro call hcall result hfails hstuck
    obtain ⟨problem, rfl, hreport⟩ := hends.report hstuck hcall hfails
    have herror := error_of_echoed (c := ⟨.ok successStatus, none, shown, w'⟩) h
    refine ⟨congrArg Except.ok hreport.exitStatus, problem, hreport, ?_, fun hwell => ?_⟩
    · show (shown.writeAll (w'.messages ++ [.error problem.message])).error.escapeSurrogates = _
      rw [Console.error_writeAll_concat, Text.escapeSurrogates_append, Console.write_error hplain]
      exact congrArg (· ++ _) herror
    · have hmessage : problem.message.isWellFormed = true := hreport.isWellFormed_message hwell
      exact Text.escapeSurrogates_of_isWellFormed (by simp [hmessage])

/-- The work of a run whose tools print something else goes the same way. -/
theorem exists_work [Interpreter] {words : List Text} {disk : Disk} {globals : Globals}
    {task : Task} {retain : Bool} {shown : Console} {settings : Settings}
    (hselects : p.Selects disk words globals task retain)
    (hshown : p.consoleFor globals = .ok shown)
    (hsettings : Settings.resolve p.surroundings disk (globals.directory.map Path.ofText)
      globals.retain none = .ok settings) :
    ∃ outcome w, p.run words disk = p.finish shown task outcome w ∧
      ∀ tools : Environment → Runner,
        (∀ environment, Runner.Alike (p.runner environment) (tools environment)) →
        ∃ outcome' w', (p.runningWith tools).run words disk =
            (p.runningWith tools).finish shown task outcome' w' ∧
          Echoed (tools settings.environment) w w' ∧
          Ends (tools settings.environment)
            ((p.build { settings with retain := settings.retain || retain }).Stuck { disk })
            w.calls outcome outcome' := by
  refine ⟨_, _, run_finish hselects hshown hsettings, fun tools halike => ?_⟩
  have hechoes := make_echoes halike { settings with retain := settings.retain || retain } task
    { disk } { disk } ⟨rfl, rfl, rfl, rfl⟩ nofun
  exact ⟨_, _, run_finish (p := p.runningWith tools) hselects hshown hsettings, hechoes⟩

/-- The outputs of tools are neither lost nor altered. A build passes on the output of each tool
that ends well, in the order of the calls; a tool that fails is the last one called, and unless
cleaning up behind it gets stuck the build ends with a problem that has its output and appends it to
a summary of one line. On a plain console the outputs stand accordingly, and what is written there
besides does not depend on them. -/
theorem run_relays [Interpreter] {words : List Text} {disk : Disk} {globals : Globals} {task : Task}
    {retain : Bool} {shown : Console} {settings : Settings}
    (hselects : p.Selects disk words globals task retain)
    (hplain : (globals.noColor || Console.asksPlain p.surroundings.environment) = true)
    (hshown : p.consoleFor globals = .ok shown)
    (hsettings : Settings.resolve p.surroundings disk (globals.directory.map Path.ofText)
      globals.retain none = .ok settings) :
    (∀ (given : Settings) (start : Disk),
      let b := p.build given
      let ended := b.run.perform { disk := start }
      ended.2.toolTexts = ended.2.calls.filterMap (·.printed? b.runner) ∧
      ∀ call ∈ ended.2.calls, ∀ result, call.Fails b.runner result →
        ended.2.calls.getLast? = some call ∧
        (¬ b.Stuck { disk := start } → ∃ problem, ended.1 = .error (.problem problem) ∧
          problem.report.OnFailure call.command result)) ∧
    ∃ first rest, ∀ tools : Environment → Runner,
      (∀ environment, Runner.Alike (p.runner environment) (tools environment)) →
      ((p.runningWith tools).run words disk).Relays globals.quiet (tools settings.environment)
        ((p.build { settings with retain := settings.retain || retain }).Stuck { disk })
        (p.run words disk).world.calls first rest := by
  refine ⟨fun given start => Build.run_passes_on (List.Subset.refl _) start, ?_⟩
  have hquiet : shown.quiet = globals.quiet := quiet_of_consoleFor hshown
  obtain ⟨outcome, w, hone, hwork⟩ := exists_work hselects hshown hsettings
  obtain ⟨told, htold, hfinish⟩ := p.exists_finish shown task outcome
  have hworld : (p.run words disk).world = (told.perform w).2 := by
    rw [hone]
    exact (hfinish p.runner w).2
  have hcalls : (p.run words disk).world.calls = w.calls := by rw [hworld, htold.calls]
  -- With which tools one looks at the calls does not matter: the same ones fail for all of them.
  by_cases hwell : AllWell (p.runner settings.environment) w.calls
  · refine ⟨(shown.own (p.run words disk).world.messages).1.escapeSurrogates,
      (shown.own (p.run words disk).world.messages).2.map Text.escapeSurrogates,
      fun tools halike => ?_⟩
    obtain ⟨outcome', w', htwo, hechoed, hends⟩ := hwork tools halike
    have hwell' : AllWell (tools settings.environment) w.calls := hwell.alike (halike _)
    obtain rfl : outcome' = outcome := hends.eq_of_well hwell'
    obtain ⟨hconsole, htoldToo⟩ := hfinish tools w'
    have hfinal : Echoed (tools settings.environment) (p.run words disk).world
        ((p.runningWith tools).run words disk).world := by
      rw [htwo, htoldToo, hworld]
      exact htold.echoed hechoed hwell'
    have hrelays := relays_of_well ((p.build { settings with
      retain := settings.retain || retain }).Stuck { disk }) hfinal (hcalls ▸ hwell')
    rwa [htwo, hconsole, hquiet, ← htwo] at hrelays
  · refine ⟨(shown.own w.messages).1.escapeSurrogates,
      (shown.own w.messages).2.map Text.escapeSurrogates, fun tools halike => ?_⟩
    obtain ⟨outcome', w', htwo, hechoed, hends⟩ := hwork tools halike
    have hfailed : ¬ AllWell (tools settings.environment) w.calls :=
      fun h => hwell (h.alike (halike _).symm)
    rw [hcalls, htwo, ← hquiet]
    exact relays_of_failed ((plain_of_consoleFor hshown).trans hplain) task hechoed hends hfailed

/-- The small program with a package manager that ends with a status and prints a text. -/
def smallPrinting (status : Int) (output : Text) : Program :=
  small.runningWith fun _ _ disk => (.ok ⟨status, output⟩, disk)

/-- Package managers that end with the same status do the same. -/
theorem smallPrinting_alike (status : Int) (output output' : Text) (environment : Environment) :
    Runner.Alike ((smallPrinting status output).runner environment)
      ((smallPrinting status output').runner environment) :=
  fun _ _ => ⟨.ended status output output', rfl⟩

/-- Asked to build, the program relays the words of a package manager that ends well. If it fails,
also the quiet program tells that, at the end of the error output. -/
theorem run_relays_small :
    small.Selects Build.smallDisk ["build"] {} .build false ∧
    (∃ before after, ((smallPrinting 0 " yes").run ["build"] Build.smallDisk).output.error =
      before ++ " yes\n" ++ after) ∧
    small.Selects Build.smallDisk ["-q", "build"] { quiet := true } .build false ∧
    ((smallPrinting 1 " no \n").run ["-q", "build"] Build.smallDisk).exit = .ok 1 ∧
    ∃ (before : Text) (call : Call) (problem : Problem),
      problem.report.OnFailure call.command ⟨1, " no \n"⟩ ∧
      ((smallPrinting 1 " no \n").run ["-q", "build"] Build.smallDisk).output.error =
        before ++ ("Error: " ++ problem.message ++ "\n") := by
  have hchecks : (selects ["build"] {} .build false &&
      selects ["-q", "build"] { quiet := true } .build false &&
      decide (((smallPrinting 0 []).run ["build"] Build.smallDisk).world.calls.length = 1) &&
      decide (((smallPrinting 1 []).run ["-q", "build"] Build.smallDisk).world.calls.length = 1) &&
      match Settings.resolve small.surroundings Build.smallDisk none false none with
        | .ok settings =>
          ((smallPrinting 1 []).build settings).endsTidily { disk := Build.smallDisk }
        | .error _ => false) = true := by
    decide +kernel
  simp only [Bool.and_eq_true, decide_eq_true_eq] at hchecks
  obtain ⟨⟨⟨⟨hloud, hquiet⟩, hgood⟩, hbad⟩, htidy⟩ := hchecks
  obtain ⟨hloud, shown, hshown⟩ := selects_spec hloud
  obtain ⟨hquiet, shown', hshown'⟩ := selects_spec hquiet
  rcases hsettings : Settings.resolve small.surroundings Build.smallDisk none false none with
    e | settings
  · rw [hsettings] at htidy
    cases htidy
  rw [hsettings] at htidy
  have hstuck : ¬ ((smallPrinting 1 []).build { settings with
      retain := settings.retain || false }).Stuck { disk := Build.smallDisk } := by
    rw [Bool.or_false]
    exact Build.not_stuck_of_check htidy
  obtain ⟨call, hcall⟩ := List.length_eq_one_iff.1 hgood
  obtain ⟨call', hcall'⟩ := List.length_eq_one_iff.1 hbad
  obtain ⟨-, first, rest, hruns⟩ :=
    run_relays (p := smallPrinting 0 []) hloud rfl hshown hsettings
  obtain ⟨-, first', rest', hruns'⟩ :=
    run_relays (p := smallPrinting 1 []) hquiet rfl hshown' hsettings
  have hrelays := hruns (smallPrinting 0 " yes").runner (smallPrinting_alike 0 _ _)
  have hrelays' := hruns' (smallPrinting 1 " no \n").runner (smallPrinting_alike 1 _ _)
  rw [hcall] at hrelays
  rw [hcall'] at hrelays'
  obtain ⟨after, rfl⟩ := List.length_eq_one_iff.1 hrelays.paired
  have hwell : AllWell ((smallPrinting 0 " yes").runner settings.environment) [call] := by
    rintro found - result ⟨⟨⟩, hfails⟩
    cases hfails
  have hline : (Text.relayed false " yes").escapeSurrogates = " yes\n" := by decide
  obtain ⟨hexit, problem, hreport, herror, hexact⟩ :=
    hrelays'.failed call' (List.mem_singleton_self _) ⟨1, " no \n"⟩ ⟨rfl, rfl⟩ hstuck
  rw [hexact (by decide)] at herror
  refine ⟨hloud, ⟨first, after, ?_⟩, hquiet, hexit, _, call', problem, hreport, herror⟩
  calc ((smallPrinting 0 " yes").run ["build"] Build.smallDisk).output.error
      = Text.woven first [after] [(Text.relayed false " yes").escapeSurrogates] :=
        hrelays.relayed hwell
    _ = first ++ " yes\n" ++ after := by simp [Text.woven, hline]

/-- The package manager prints a lone surrogate. The program, asked to build without being quiet,
does not relay that as it is: the error output has no such text in it. -/
theorem run_escapes :
    small.Selects Build.smallDisk ["build"] {} .build false ∧
    ((smallPrinting 0 [.surrogate 0]).run ["build"] Build.smallDisk).world.calls.filterMap
      (·.printed? fun _ disk => (.ok ⟨0, [.surrogate 0]⟩, disk)) = [[.surrogate 0]] ∧
    ¬ ∃ before after : Text,
      ((smallPrinting 0 [.surrogate 0]).run ["build"] Build.smallDisk).output.error =
        before ++ [.surrogate 0, .char '\n'] ++ after := by
  have hchecks : (selects ["build"] {} .build false &&
      decide (((smallPrinting 0 [.surrogate 0]).run ["build"] Build.smallDisk).world.calls.filterMap
        (·.printed? fun _ disk => (.ok ⟨0, [.surrogate 0]⟩, disk)) = [[.surrogate 0]]) &&
      !((smallPrinting 0 [.surrogate 0]).run ["build"] Build.smallDisk).output.error.contains
        (.surrogate 0)) = true := by
    decide +kernel
  simp only [Bool.and_eq_true, decide_eq_true_eq, Bool.not_eq_true'] at hchecks
  obtain ⟨⟨hselects, hprinted⟩, habsent⟩ := hchecks
  refine ⟨(selects_spec hselects).1, hprinted, ?_⟩
  rintro ⟨before, after, herror⟩
  rw [herror] at habsent
  simp at habsent

end Program

end ProviderKit
