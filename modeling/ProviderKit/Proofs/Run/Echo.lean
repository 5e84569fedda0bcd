import ProviderKit.Proofs.Run.Perform

/-!
# Runs whose tools print something else

Two runs that differ in nothing but what their tools print. They go the same way, since no run reads
what a tool has printed: they call the same tools on the same disks, and say the same things between
the outputs that they pass on (`Echoed`). They also end in the same way, unless a tool fails; then
both end there, each with a problem that tells what its own tool has printed, if nothing gets stuck
behind it (`Ends`).

`Echoes` states this of two runs from whatever worlds are related so. It holds of a sequence if it
holds of the parts (`Echoes.bind`), of a tool that is called and reported (`echoes_tool`), and of
everything that calls no tool, compared with itself (`Plain.echoes`).
-/

namespace ProviderKit

/-! ## What tools print -/

/-- The output of a tool that a message passes on. -/
def Message.toolText? : Message → Option Text
  | .toolOutput t => some t
  | .info _ | .success _ | .warning _ | .error _ | .suggest _ | .debug _ | .data _ | .notice _
  | .page _ | .log _ => none

/-- The message with nothing in the place of a tool's output. -/
def Message.hushed : Message → Message
  | .toolOutput _ => .toolOutput []
  | m => m

/-- The outputs of tools that a run has passed on, in order. -/
def World.toolTexts (w : World) : List Text := w.messages.filterMap Message.toolText?

namespace Call

/-- How the command of a call ended. -/
def ended (runner : Runner) (call : Call) : Except Failure CommandResult :=
  (runner call.command call.disk).1

/-- The command of a call ended with a result, and with another status than zero. -/
def Fails (runner : Runner) (call : Call) (result : CommandResult) : Prop :=
  call.ended runner = .ok result ∧ result.succeeded = false

/-- What the command of a call has printed, if it ended well. -/
def printed? (runner : Runner) (call : Call) : Option Text :=
  match call.ended runner with
  | .ok result => if result.succeeded then some result.output else none
  | .error _ => none

end Call

/-- Two ways in which a command ends that differ at most in what it has printed. -/
inductive CommandResult.Alike : Except Failure CommandResult → Except Failure CommandResult → Prop
  | failed (e : Failure) : Alike (.error e) (.error e)
  | ended (status : Int) (output output' : Text) :
    Alike (.ok ⟨status, output⟩) (.ok ⟨status, output'⟩)

/-- Two runners that do the same and differ at most in what commands print. -/
def Runner.Alike (runner other : Runner) : Prop := ∀ command disk,
  CommandResult.Alike (runner command disk).1 (other command disk).1 ∧
    (other command disk).2 = (runner command disk).2

/-- The order in which two ways to end are compared does not matter. -/
theorem CommandResult.Alike.symm {ended ended' : Except Failure CommandResult}
    (h : CommandResult.Alike ended ended') : CommandResult.Alike ended' ended := by
  cases h with
  | failed e => exact .failed e
  | ended status output output' => exact .ended status output' output

/-- Nor does the order in which two runners are compared. -/
theorem Runner.Alike.symm {runner other : Runner} (h : Runner.Alike runner other) :
    Runner.Alike other runner :=
  fun command disk => ⟨(h command disk).1.symm, (h command disk).2.symm⟩

/-- A runner does the same as itself. -/
theorem Runner.Alike.refl (runner : Runner) : Runner.Alike runner runner := by
  intro command disk
  refine ⟨?_, rfl⟩
  rcases (runner command disk).1 with e | ⟨status, output⟩
  · exact .failed e
  · exact .ended status output output

/-- A call that fails fails for every runner that does the same. -/
theorem Call.Fails.alike {runner other : Runner} (h : Runner.Alike runner other) {call : Call}
    {result : CommandResult} (hfails : call.Fails runner result) :
    ∃ result', call.Fails other result' := by
  obtain ⟨hended, hbad⟩ := hfails
  obtain ⟨halike, -⟩ := h call.command call.disk
  unfold Call.ended at hended
  rw [hended] at halike
  generalize houtcome : (other call.command call.disk).1 = outcome at halike
  cases halike with
  | ended status output output' => exact ⟨_, houtcome, hbad⟩

/-- The text is one line that can be written as UTF-8. -/
def Text.IsLine (t : Text) : Prop := CodePoint.char '\n' ∉ t ∧ t.isWellFormed = true

/-- The problem tells that a command failed, with its status and all that it has printed: the
compiler is named by its program, any other command is given as it is typed. -/
inductive Problem.Tells (command : Command) (result : CommandResult) : Problem → Prop
  | compiler (h : command.args.head? = some "tsc") (hline : command.program.IsLine) :
    Tells command result (.compileFailed command.program result.status result.output)
  | installer (h : command.args.head? ≠ some "tsc")
    (hline : (Text.join " " (command.program :: command.args)).IsLine) :
    Tells command result (.installFailed (Text.join " " (command.program :: command.args))
      result.status result.output)

namespace Run

variable {α β : Type} {runner other : Runner} {w w' : World}

/-! ## The relation between two runs -/

/-- The worlds of two runs that have gone the same way, the second one with the given runner: it has
passed on what the tools have printed that ended well, call by call. -/
structure Echoed (other : Runner) (w w' : World) : Prop where
  disk : w'.disk = w.disk
  calls : w'.calls = w.calls
  said : w'.messages.map Message.hushed = w.messages.map Message.hushed
  relayed : w'.toolTexts = w'.calls.filterMap (·.printed? other)

/-- Every call has ended well, or with a failure of its own. -/
def AllWell (other : Runner) (calls : List Call) : Prop :=
  ∀ call ∈ calls, ∀ result, ¬ call.Fails other result

/-- What ends well ends well for every runner that does the same. -/
theorem AllWell.alike (h : Runner.Alike runner other) {calls : List Call}
    (hwell : AllWell runner calls) : AllWell other calls := by
  intro call hcall result hfails
  obtain ⟨result', hfails'⟩ := hfails.alike h.symm
  exact hwell call hcall result' hfails'

/-- How two runs end that have made the calls. -/
inductive Ends (other : Runner) (stuck : Prop) (calls : List Call) :
    Except Failure α → Except Failure α → Prop
  /-- No tool has failed, and the runs end in the same way. -/
  | same (outcome : Except Failure α) (hwell : AllWell other calls) :
    Ends other stuck calls outcome outcome
  /-- The last call has failed, and both runs end with that. -/
  | failed {p p' : Problem} {before : List Call} {call : Call} {result : CommandResult}
    (hlast : calls = before ++ [call]) (hwell : AllWell other before)
    (hfails : call.Fails other result) (htells : p'.Tells call.command result) :
    Ends other stuck calls (.error (.problem p)) (.error (.problem p'))
  /-- The last call has failed, and both runs get stuck behind it: they end with that. -/
  | replaced {e : Failure} {before : List Call} {call : Call} {result : CommandResult}
    (hlast : calls = before ++ [call]) (hwell : AllWell other before)
    (hfails : call.Fails other result) (hstuck : stuck) :
    Ends other stuck calls (.error e) (.error e)

/-- Two runs that cannot get stuck end as two that can. -/
theorem Ends.of_never {stuck : Prop} {calls : List Call} {outcome outcome' : Except Failure α}
    (h : Ends other False calls outcome outcome') : Ends other stuck calls outcome outcome' := by
  cases h with
  | same outcome hwell => exact .same outcome hwell
  | failed hlast hwell hfails htells => exact .failed hlast hwell hfails htells
  | replaced _ _ _ hstuck => exact hstuck.elim

/-- The second run, whose tools are run by the given runner, goes the same way as the first one from
any two worlds in which no tool has failed; in some worlds the first one gets stuck. -/
def Echoes (other : Runner) (stuck : World → Prop) (x y : Run α) : Prop :=
  ∀ w w', Echoed other w w' → AllWell other w.calls →
    Echoed other (x.perform w).2 (y.perform w').2 ∧
      Ends other (stuck w) (x.perform w).2.calls (x.perform w).1 (y.perform w').1

/-- In no world a run gets stuck. -/
abbrev Never : World → Prop := fun _ => False

variable {stuck : World → Prop}

/-- A sequence goes the same way as another one if its parts do. -/
theorem Echoes.bind {x y : Run α} {f g : α → Run β} (hx : Echoes other stuck x y)
    (hf : ∀ a, Echoes other Never (f a) (g a)) : Echoes other stuck (x >>= f) (y >>= g) := by
  intro w w' hechoed hwell
  obtain ⟨hfirst, hends⟩ := hx w w' hechoed hwell
  rcases hone : x.perform w with ⟨outcome, v⟩
  rcases htwo : y.perform w' with ⟨outcome', v'⟩
  rw [hone, htwo] at hfirst hends
  dsimp only at hfirst hends
  cases hends with
  | same outcome hwell =>
    cases outcome with
    | error e =>
      rw [perform_bind_error f hone, perform_bind_error g htwo]
      exact ⟨hfirst, .same _ hwell⟩
    | ok a =>
      rw [perform_bind_ok f hone, perform_bind_ok g htwo]
      obtain ⟨hsecond, hends⟩ := hf a v v' hfirst hwell
      exact ⟨hsecond, hends.of_never⟩
  | failed hlast hwell hfails htells =>
    rw [perform_bind_error f hone, perform_bind_error g htwo]
    exact ⟨hfirst, .failed hlast hwell hfails htells⟩
  | replaced hlast hwell hfails hstuck =>
    rw [perform_bind_error f hone, perform_bind_error g htwo]
    exact ⟨hfirst, .replaced hlast hwell hfails hstuck⟩

/-- What follows an outcome matters only if there is a result. -/
theorem Echoes.ofExcept_bind {outcome : Except Failure α} {f g : α → Run β}
    (h : ∀ a, outcome = .ok a → Echoes other stuck (f a) (g a)) :
    Echoes other stuck (ofExcept outcome >>= f) (ofExcept outcome >>= g) := by
  intro w w' hechoed hwell
  cases outcome with
  | error e =>
    rw [perform_bind_error f (perform_ofExcept _ w), perform_bind_error g (perform_ofExcept _ w')]
    exact ⟨hechoed, .same _ hwell⟩
  | ok a =>
    rw [perform_bind_ok f (perform_ofExcept _ w), perform_bind_ok g (perform_ofExcept _ w')]
    exact h a rfl w w' hechoed hwell

/-- Of two alternatives the same one is taken. -/
theorem Echoes.ite {c : Prop} [Decidable c] {x x' y y' : Run α} (hx : Echoes other stuck x x')
    (hy : Echoes other stuck y y') :
    Echoes other stuck (if c then x else y) (if c then x' else y') := by
  split
  · exact hx
  · exact hy

/-! ## Runs that call no tool -/

/-- A run that works on the disk, speaks for itself and keeps the record, and calls nothing. -/
inductive Plain : {α : Type} → Run α → Prop
  | step {α : Type} (f : Disk → Except Failure α × Disk) : Plain (step f)
  | look {α : Type} (f : Disk → Except Failure α) : Plain (look f)
  | ofExcept {α : Type} (outcome : Except Failure α) : Plain (ofExcept outcome)
  | say {m : Message} (h : m.toolText? = none) : Plain (say m)
  | complete (s : Stage) : Plain (complete s)
  | bind {α β : Type} {x : Run α} {f : α → Run β} (hx : Plain x) (hf : ∀ a, Plain (f a)) :
    Plain (x >>= f)

/-- A run without a step is plain. -/
theorem Plain.pure (a : α) : Plain (pure a : Run α) := .ofExcept (.ok a)

/-- Of two plain alternatives the one taken is plain. -/
theorem Plain.ite {c : Prop} [Decidable c] {x y : Run α} (hx : Plain x) (hy : Plain y) :
    Plain (if c then x else y) := by
  split
  · exact hx
  · exact hy

/-- What is said besides the outputs of tools is the same for both runs. -/
theorem Echoed.say (h : Echoed other w w') {m : Message} (hm : m.toolText? = none) :
    Echoed other { w with messages := w.messages ++ [m] }
      { w' with messages := w'.messages ++ [m] } where
  disk := h.disk
  calls := h.calls
  said := by simp only [List.map_append, h.said]
  relayed := by simpa [World.toolTexts, hm] using h.relayed

/-- A plain run goes the same way as itself. -/
theorem Plain.echoes {x : Run α} (h : Plain x) : Echoes other stuck x x := by
  suffices hnever : Echoes other Never x x by
    intro w w' hechoed hwell
    obtain ⟨hafter, hends⟩ := hnever w w' hechoed hwell
    exact ⟨hafter, hends.of_never⟩
  induction h with
  | step f =>
    intro w w' hechoed hwell
    rw [perform_step, perform_step, hechoed.disk]
    exact ⟨⟨rfl, hechoed.calls, hechoed.said, hechoed.relayed⟩, .same _ hwell⟩
  | look f =>
    intro w w' hechoed hwell
    rw [perform_look, perform_look, hechoed.disk]
    exact ⟨hechoed, .same _ hwell⟩
  | ofExcept outcome => exact fun w w' hechoed hwell => ⟨hechoed, .same _ hwell⟩
  | say hm => exact fun w w' hechoed hwell => ⟨hechoed.say hm, .same _ hwell⟩
  | complete s =>
    exact fun w w' hechoed hwell =>
      ⟨⟨hechoed.disk, hechoed.calls, hechoed.said, hechoed.relayed⟩, .same _ hwell⟩
  | bind _ _ ihx ihf => exact ihx.bind ihf

/-- Two worlds that are related so are still related after a plain run. -/
theorem Plain.echoed {x : Run α} (h : Plain x) (hechoed : Echoed other w w')
    (hwell : AllWell other w.calls) : Echoed other (x.perform w).2 (x.perform w').2 := by
  have hsame : Echoes other Never x x := h.echoes
  exact (hsame w w' hechoed hwell).1

/-- A plain run calls nothing. -/
theorem Plain.calls {x : Run α} (h : Plain x) (w : World) : (x.perform w).2.calls = w.calls := by
  induction h generalizing w with
  | step f => rw [perform_step]
  | look f => rw [perform_look]
  | ofExcept outcome => rw [perform_ofExcept]
  | say hm => rw [perform_say]
  | complete s => rfl
  | bind hx hf ihx ihf =>
    rename_i x f
    rcases hperform : x.perform w with ⟨e | a, v⟩
    all_goals have hcalls := ihx w
    all_goals rw [hperform] at hcalls
    · rw [perform_bind_error f hperform]
      exact hcalls
    · rw [perform_bind_ok f hperform]
      exact (ihf a v).trans hcalls

/-! ## Tools -/

/-- One more call that has not failed leaves all calls well. -/
theorem AllWell.concat {calls : List Call} {call : Call} (h : AllWell other calls)
    (hcall : ∀ result, ¬ call.Fails other result) : AllWell other (calls ++ [call]) := by
  intro found hfound
  rcases List.mem_append.1 hfound with hbefore | hlast
  · exact h found hbefore
  · obtain rfl := List.mem_singleton.1 hlast
    exact hcall

/-- The answer of a run to the failure of a call. -/
def answers : Failure → List Message
  | .interrupted => [cancelled]
  | _ => []

/-- A call whose command gives a result. -/
theorem perform_call_ok {records : Records} {command : Command} {result : CommandResult}
    {left : Disk} (h : runner command w.disk = (.ok result, left)) :
    (call runner records command).perform w =
      (.ok result, { w with
        calls := w.calls ++ [⟨command, w.disk⟩]
        disk := left
        messages := w.messages ++ (records command w.disk).map .log }) := by
  rw [perform_call, h]
  simp only [List.append_nil]

/-- A call whose command gives none. -/
theorem perform_call_error {records : Records} {command : Command} {e : Failure} {left : Disk}
    (h : runner command w.disk = (.error e, left)) : (call runner records command).perform w =
      (.error e, { w with
        calls := w.calls ++ [⟨command, w.disk⟩]
        disk := left
        messages := w.messages ++ ((records command w.disk).map .log ++ answers e) }) := by
  rw [perform_call, h, List.append_assoc]
  cases e <;> rfl

/-- What is recorded of a command is no output of a tool. -/
theorem toolText?_log (records : List Text) :
    (records.map Message.log).filterMap Message.toolText? = [] := by
  simp [List.filterMap_map, Message.toolText?]

/-- One more call, after which one run says the one and the other run the other: what the latter
passes on is what was printed, if the command ended well. -/
theorem Echoed.called (h : Echoed other w w') {call : Call} {left : Disk}
    {more more' : List Message} (hsaid : more'.map Message.hushed = more.map Message.hushed)
    (hprinted : more'.filterMap Message.toolText? = (call.printed? other).toList) :
    Echoed other
      { w with calls := w.calls ++ [call], disk := left, messages := w.messages ++ more }
      { w' with calls := w'.calls ++ [call], disk := left, messages := w'.messages ++ more' } where
  disk := rfl
  calls := by rw [h.calls]
  said := by simp only [List.map_append, h.said, hsaid]
  relayed := by
    have hrelayed : w'.messages.filterMap Message.toolText? =
        w'.calls.filterMap (·.printed? other) := h.relayed
    have hcall : [call].filterMap (·.printed? other) = (call.printed? other).toList := by
      rcases hcalled : call.printed? other with _ | t <;> simp [hcalled]
    simp only [World.toolTexts, List.filterMap_append, hrelayed, hprinted, hcall]

/-- A tool that is called and reported goes the same way whatever it prints: its output is passed on
if it ended well, and told with the problem if not. -/
theorem echoes_tool (halike : Runner.Alike runner other) (records : Records) (command : Command)
    {failure : CommandResult → Failure}
    (hfailure : ∀ result, ∃ p : Problem, failure result = .problem p ∧ p.Tells command result) :
    Echoes other Never
      (do
        let result ← call runner records command
        if result.succeeded then say (.toolOutput result.output) else fail (failure result))
      (do
        let result ← call other records command
        if result.succeeded then say (.toolOutput result.output) else fail (failure result)) := by
  intro w w' hechoed hwell
  obtain ⟨hended, hdisk⟩ := halike command w.disk
  rcases hone : runner command w.disk with ⟨outcome, left⟩
  rcases htwo : other command w.disk with ⟨outcome', left'⟩
  rw [hone, htwo] at hended hdisk
  obtain rfl : left' = left := hdisk
  have htwo' := htwo
  rw [← hechoed.disk] at htwo'
  have hcalled : Call.ended other ⟨command, w.disk⟩ = outcome' := congrArg Prod.fst htwo
  -- A call that does not end badly for the other runner leaves all of its calls well.
  have hnotFails : ∀ outcome, Call.ended other ⟨command, w.disk⟩ = outcome →
      (∀ result, outcome = .ok result → result.succeeded = true) →
      AllWell other (w.calls ++ [⟨command, w.disk⟩]) := by
    rintro outcome rfl hgood
    refine hwell.concat ?_
    rintro result ⟨hok, hbad⟩
    rw [hgood result hok] at hbad
    cases hbad
  cases hended with
  | failed e =>
    rw [perform_bind_error _ (perform_call_error hone),
      perform_bind_error _ (perform_call_error htwo'), hechoed.disk]
    have hnothing : (answers e).filterMap Message.toolText? = [] := by cases e <;> rfl
    refine ⟨hechoed.called rfl ?_, .same _ (hnotFails _ hcalled nofun)⟩
    rw [List.filterMap_append, toolText?_log, hnothing, Call.printed?, hcalled]
    rfl
  | ended status output output' =>
    rw [perform_bind_ok _ (perform_call_ok hone), perform_bind_ok _ (perform_call_ok htwo'),
      hechoed.disk]
    by_cases hzero : status = 0
    · have hgood : ∀ t, CommandResult.succeeded ⟨status, t⟩ = true := by
        simp [CommandResult.succeeded, hzero]
      rw [if_pos (hgood output), if_pos (hgood output'), perform_say, perform_say]
      simp only [List.append_assoc]
      refine ⟨hechoed.called (by simp [Message.hushed]) ?_, .same _ (hnotFails _ hcalled ?_)⟩
      · rw [Call.printed?, hcalled, List.filterMap_append, toolText?_log]
        simp only [hgood, if_true]
        rfl
      · rintro result ⟨⟩
        exact hgood output'
    · have hbad : ∀ t, CommandResult.succeeded ⟨status, t⟩ = false := by
        simp [CommandResult.succeeded, hzero]
      obtain ⟨p, hp, -⟩ := hfailure ⟨status, output⟩
      obtain ⟨p', hp', htells⟩ := hfailure ⟨status, output'⟩
      have hunprinted : Call.printed? other ⟨command, w.disk⟩ = none := by
        simp [Call.printed?, hcalled, hbad]
      rw [if_neg (by simp [hbad]), if_neg (by simp [hbad]), perform_fail, perform_fail, hp, hp']
      refine ⟨hechoed.called rfl ?_, .failed rfl hwell ⟨hcalled, hbad output'⟩ htells⟩
      rw [hunprinted, toolText?_log]
      rfl

end Run

end ProviderKit
