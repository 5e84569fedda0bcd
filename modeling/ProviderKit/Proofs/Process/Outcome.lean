import ProviderKit.Process.Runner
import ProviderKit.Proofs.Disk.Names
import ProviderKit.Proofs.Text.Pieces

/-!
# How a command ends

A command whose program is found becomes a process (`Command.process?`). If the process can be given
its texts, a machine runs it, and the outcome of the command is read off the ending
(`Command.Runs`). Of a command that holds no null character and no variable with an equals sign in
its name, the outcome is a result with the status of the process, or a problem of the command, with
three exceptions (`Command.Unreported`): a text that stands for no bytes, an output that is not
UTF-8, and a time that no machine can wait for.
-/

namespace ProviderKit

open Disk (Usable)

namespace Ending

/-- The status and the output of a process that came to its own end. A process that was killed has
the negated number of the signal as its status. -/
def finished? : Ending → Option (Int × Bytes)
  | exited status output => some (status, output)
  | killed signal output => some (-(signal : Int), output)
  | unfinished _ | unbounded | notStarted .. => none

end Ending

namespace Process

/-- The texts that a process is given besides its program: the variables, the arguments and the
directory. -/
def texts (p : Process) : List Text :=
  p.environment.flatMap (fun v => [v.1, v.2]) ++ p.arguments ++ [p.directory.text]

/-- A process has no null character in its arguments and variables, and no equals sign in the name
of a variable. -/
structure IsPlain (p : Process) : Prop where
  arguments : ∀ t ∈ p.arguments, Disk.hasNull t = false
  environment : ∀ v ∈ p.environment, Disk.hasNull v.1 = false ∧ Disk.hasNull v.2 = false ∧
    CodePoint.char '=' ∉ v.1

/-- What a process without null characters cannot be given: a text that stands for no bytes or, with
nothing else wrong, a directory with a null character in its path. -/
inductive Unpassed (p : Process) : Failure → Prop where
  | text {t : Text} (ht : t ∈ p.texts) (h : Disk.isEncodable t = false) :
      Unpassed p (.disk .unencodable)
  | directory (htexts : ∀ t ∈ p.texts, Disk.isEncodable t = true)
      (h : Disk.hasNull p.directory.text = true) : Unpassed p .badArgument

end Process

namespace Command

/-- The process that a command becomes on a disk, if its program is found. -/
def process? (command : Command) (s : Surroundings) (base : Environment) (disk : Disk) :
    Option Process :=
  let environment := base.overlay command.overrides
  (s.findProgram disk environment command.program).map (command.process · environment)

/-- The machine runs the process of a command, which comes to an ending. -/
structure Runs (machine : Machine) (s : Surroundings) (base : Environment)
    (limit : Option TimeLimit) (command : Command) (disk : Disk) (process : Process)
    (ending : Ending) : Prop where
  found : command.process? s base disk = some process
  passed : process.fault? = none
  ending : (machine process limit disk).1 = ending

/-- How a command ends without a result and without a problem: its process is not given a text,
prints what is not UTF-8, or has more time than can be waited for. -/
inductive Unreported (machine : Machine) (s : Surroundings) (base : Environment)
    (limit : Option TimeLimit) (command : Command) (disk : Disk) : Failure → Prop where
  | unpassed {process : Process} {e : Failure}
      (hfound : command.process? s base disk = some process) (h : process.Unpassed e) :
      Unreported machine s base limit command disk e
  | undecodable {process : Process} {ending : Ending} {status : Int} {output : Bytes}
      {fault : Utf8.Fault}
      (hruns : command.Runs machine s base limit disk process ending)
      (hfinished : ending.finished? = some (status, output))
      (h : Utf8.decode output = .error fault) :
      Unreported machine s base limit command disk (.undecodable fault)
  | unbounded {process : Process} (h : command.Runs machine s base limit disk process .unbounded) :
      Unreported machine s base limit command disk .longTime

end Command

/-! ## Texts that a process can be given -/

/-- The first failure in a list whose items fail in one way. -/
theorem findSome?_of_uniform {α β : Type} {f : α → Option β} {good : α → Bool} {b : β}
    {items : List α} (h : ∀ a ∈ items, f a = if good a then none else some b) :
    items.findSome? f = if items.all good then none else some b := by
  induction items with
  | nil => rfl
  | cons a rest ih =>
    have hrest := ih fun c hc => h c (List.mem_cons_of_mem _ hc)
    rw [List.findSome?_cons, h a List.mem_cons_self, List.all_cons]
    cases good a with
    | false => rfl
    | true => simpa using hrest

/-- What is found as a program can be given to a process: the disk has followed it. -/
theorem Disk.usable_of_isRunnable {disk : Disk} {directory : Path} {t : Text}
    (h : disk.isRunnable directory t = true) : Usable t := by
  have hgivable : Disk.IsGivable (directory.join (.ofText t)) := by
    rcases hfile : disk.fileAt directory t with fault | found
    · rw [Disk.isRunnable, hfile] at h
      cases h
    unfold Disk.fileAt at hfile
    dsimp only at hfile
    split at hfile
    · cases hfile
    rcases hfind : disk.find true (directory.join (.ofText t)) with fault | ⟨place, entry⟩
    · rw [hfind] at hfile
      cases hfile
    · exact (Disk.walk_of_locate (Disk.find_eq_ok.1 hfind).1).1
  have hnames : ∀ name ∈ Path.namesOf t, Usable name := by
    intro name hname
    refine Disk.usable_of_isGivable hgivable name ?_
    unfold Path.join
    split
    · exact hname
    · exact List.mem_append_right _ hname
  refine Disk.usable_iff.2 fun c hc => ?_
  have hsplit : c = .char '/' ∨ ∃ piece ∈ Text.split (.char '/') t, c ∈ piece := Text.mem_split hc
  obtain rfl | ⟨piece, hpiece, hmem⟩ := hsplit
  · exact ⟨rfl, by decide⟩
  by_cases hdot : piece = Text.ofString "."
  · subst hdot
    obtain rfl : c = .char '.' := List.mem_singleton.1 hmem
    exact ⟨rfl, by decide⟩
  · have hkept : piece ∈ Path.namesOf t := by
      refine List.mem_filter.2 ⟨hpiece, ?_⟩
      simp [hdot, List.ne_nil_of_mem hmem]
    exact Disk.usable_iff.1 (hnames piece hkept) c hmem

/-- The text under which a program is found can be given to a process. -/
theorem Disk.usable_of_findProgram {disk : Disk} {directory : Path} {path program found : Text}
    (h : disk.findProgram directory path program = some found) : Usable found := by
  unfold Disk.findProgram at h
  split at h
  · split at h
    next hrunnable =>
      cases h
      exact Disk.usable_of_isRunnable hrunnable
    next => cases h
  · split at h
    · cases h
    obtain ⟨element, -, helement⟩ := List.exists_of_findSome?_eq_some h
    dsimp only at helement
    split at helement
    next hrunnable =>
      cases helement
      exact Disk.usable_of_isRunnable hrunnable
    next => cases helement

namespace Process

variable {p : Process}

/-- A text without null characters can be passed if it can be written as bytes. -/
theorem textFault?_of_plain {t : Text} (h : Disk.hasNull t = false) :
    textFault? t = if Disk.isEncodable t then none else some (.disk .unencodable) := by
  unfold textFault?
  cases Disk.isEncodable t <;> simp [h]

/-- A variable without an equals sign in its name can be written if its texts can. -/
theorem variableFault?_of_plain {v : Text × Text} (h : CodePoint.char '=' ∉ v.1) :
    variableFault? v =
      if Disk.isEncodable v.1 && Disk.isEncodable v.2 then none
      else some (.disk .unencodable) := by
  obtain ⟨name, value⟩ := v
  have hequals : name.contains (.char '=') = false := by simpa using h
  unfold variableFault?
  dsimp only
  rw [hequals]
  cases Disk.isEncodable name <;> cases Disk.isEncodable value <;> rfl

/-- A plain process is refused if one of its texts stands for no bytes, and else if there is a null
character in the path of its directory. -/
theorem fault?_of_plain (hplain : p.IsPlain) (hprogram : Usable p.executable) :
    p.fault? = if p.texts.all Disk.isEncodable then
        if Disk.hasNull p.directory.text then some .badArgument else none
      else some (.disk .unencodable) := by
  have hvariables : p.environment.findSome? variableFault? =
      if p.environment.all fun v => Disk.isEncodable v.1 && Disk.isEncodable v.2 then none
      else some (.disk .unencodable) :=
    findSome?_of_uniform fun v hv => variableFault?_of_plain (hplain.environment v hv).2.2
  have harguments : (p.executable :: p.arguments).findSome? textFault? =
      if p.arguments.all Disk.isEncodable then none else some (.disk .unencodable) := by
    rw [List.findSome?_cons, textFault?_of_plain hprogram.2, hprogram.1]
    exact findSome?_of_uniform fun t ht => textFault?_of_plain (hplain.arguments t ht)
  have hnull : (p.environment.any fun v => Disk.hasNull v.1 || Disk.hasNull v.2) = false := by
    rw [List.any_eq_false]
    intro v hv
    obtain ⟨hname, hvalue, -⟩ := hplain.environment v hv
    simp [hname, hvalue]
  have htexts : p.texts.all Disk.isEncodable =
      ((p.environment.all fun v => Disk.isEncodable v.1 && Disk.isEncodable v.2) &&
        p.arguments.all Disk.isEncodable && Disk.isEncodable p.directory.text) := by
    unfold texts
    simp [List.all_flatMap, Bool.and_assoc]
  rw [fault?, hvariables, harguments, hnull, htexts]
  cases p.environment.all fun v => Disk.isEncodable v.1 && Disk.isEncodable v.2
  · rfl
  cases p.arguments.all Disk.isEncodable
  · rfl
  unfold textFault?
  cases Disk.isEncodable p.directory.text <;> simp

/-- A plain process whose program can be passed is refused just for what it cannot be given. -/
theorem fault?_eq_some (hplain : p.IsPlain) (hprogram : Usable p.executable) {e : Failure} :
    p.fault? = some e ↔ p.Unpassed e := by
  rw [fault?_of_plain hplain hprogram]
  by_cases htexts : ∀ t ∈ p.texts, Disk.isEncodable t = true
  · rw [if_pos (List.all_eq_true.2 htexts)]
    constructor
    · intro h
      split at h
      next hnull =>
        cases h
        exact .directory htexts hnull
      next => cases h
    · intro h
      cases h with
      | text ht hnot =>
        rw [htexts _ ht] at hnot
        cases hnot
      | directory _ hnull => rw [if_pos hnull]
  · rw [if_neg fun h => htexts (List.all_eq_true.1 h)]
    constructor
    · intro h
      cases h
      obtain ⟨t, ht, hnot⟩ : ∃ t ∈ p.texts, Disk.isEncodable t = false := by simpa using htexts
      exact .text ht hnot
    · intro h
      cases h with
      | text => rfl
      | directory hall _ => exact absurd hall htexts

end Process

/-! ## Commands -/

namespace Command

variable {machine : Machine} {s : Surroundings} {base : Environment} {limit : Option TimeLimit}
  {command : Command} {disk : Disk} {process : Process}

/-- A process has the arguments, the directory and the variables of its command. -/
theorem process?_eq_some (h : command.process? s base disk = some process) :
    ∃ found, s.findProgram disk (base.overlay command.overrides) command.program = some found ∧
      process = command.process found (base.overlay command.overrides) := by
  obtain ⟨found, hfound, rfl⟩ := Option.map_eq_some_iff.1 h
  exact ⟨found, hfound, rfl⟩

/-- A command that becomes no process was not found. -/
theorem runner_of_none (h : command.process? s base disk = none) :
    (machine.runner s base limit command disk).1 =
      .error (.problem (.commandNotFound command.program)) := by
  have hfind := Option.map_eq_none_iff.1 h
  unfold Machine.runner
  simp only [hfind]

/-- A command fails as its process does that is not given a text. -/
theorem runner_of_fault {e : Failure} (h : command.process? s base disk = some process)
    (hfault : process.fault? = some e) :
    (machine.runner s base limit command disk).1 = .error e := by
  obtain ⟨found, hfind, rfl⟩ := process?_eq_some h
  unfold Machine.runner
  simp only [hfind, hfault]

/-- The outcome of a command whose process is run is read off the ending. -/
theorem Runs.runner {ending : Ending}
    (h : command.Runs machine s base limit disk process ending) :
    (machine.runner s base limit command disk).1 = command.outcome ending := by
  obtain ⟨found, hfind, rfl⟩ := process?_eq_some h.found
  have hpassed := h.passed
  have hending := h.ending
  unfold Machine.runner
  simp only [hfind, hpassed, hending]

/-- A process that came to its own end gives its status and its output, if that is UTF-8. -/
theorem outcome_of_finished {ending : Ending} {status : Int} {output : Bytes}
    (h : ending.finished? = some (status, output)) :
    command.outcome ending = result status output := by
  cases ending with
  | exited | killed =>
    cases h
    rfl
  | unfinished | unbounded | notStarted => cases h

/-- A result is that of a process that came to its own end. -/
theorem finished_of_outcome {ending : Ending} {r : CommandResult}
    (h : command.outcome ending = .ok r) : ∃ output text,
      ending.finished? = some (r.status, output) ∧ Utf8.decode output = .ok text ∧
      r.output = text.normalizeNewlines := by
  rcases hfinished : ending.finished? with _ | ⟨status, output⟩
  · cases ending with
    | exited | killed => cases hfinished
    | unfinished | unbounded | notStarted => cases h
  · rw [outcome_of_finished hfinished, result] at h
    rcases hdecode : Utf8.decode output with fault | text
    · rw [hdecode] at h
      cases h
    · rw [hdecode] at h
      cases h
      exact ⟨output, text, rfl, hdecode, rfl⟩

/-- A process that gives no result prints what is not UTF-8, has too much time, or makes a problem
of its command. -/
theorem outcome_error {ending : Ending} {e : Failure} (h : command.outcome ending = .error e) :
    (∃ p, e = .problem p ∧ p.report.category = .command) ∨
    (ending = .unbounded ∧ e = .longTime) ∨
    ∃ status output fault, ending.finished? = some (status, output) ∧
      Utf8.decode output = .error fault ∧ e = .undecodable fault := by
  rcases hfinished : ending.finished? with _ | ⟨status, output⟩
  · cases ending with
    | exited | killed => cases hfinished
    | unfinished | notStarted =>
      cases h
      exact .inl ⟨_, rfl, rfl⟩
    | unbounded =>
      cases h
      exact .inr (.inl ⟨rfl, rfl⟩)
  · rw [outcome_of_finished hfinished, result] at h
    rcases hdecode : Utf8.decode output with fault | text
    · rw [hdecode] at h
      cases h
      exact .inr (.inr ⟨status, output, fault, rfl, hdecode, rfl⟩)
    · rw [hdecode] at h
      cases h

/-- A command that holds no null character, run with variables that hold none and have no equals
sign in a name. -/
structure IsPlain (command : Command) (base : Environment) : Prop where
  arguments : ∀ t ∈ command.args, Disk.hasNull t = false
  environment : ∀ v ∈ base.overlay command.overrides,
    Disk.hasNull v.1 = false ∧ Disk.hasNull v.2 = false ∧ CodePoint.char '=' ∉ v.1

/-- The process of a plain command is refused just for what it cannot be given. -/
theorem IsPlain.fault? (hplain : command.IsPlain base)
    (h : command.process? s base disk = some process) {e : Failure} :
    process.fault? = some e ↔ process.Unpassed e := by
  obtain ⟨found, hfind, rfl⟩ := process?_eq_some h
  have husable : Usable found := Disk.usable_of_findProgram hfind
  exact Process.fault?_eq_some ⟨hplain.arguments, hplain.environment⟩ husable

/-- A command becomes no process, becomes one that is not given a text, or is run. -/
theorem process?_cases (machine : Machine) (s : Surroundings) (base : Environment)
    (limit : Option TimeLimit) (command : Command) (disk : Disk) :
    command.process? s base disk = none ∨
    (∃ process e, command.process? s base disk = some process ∧ process.fault? = some e) ∨
    ∃ process ending, command.Runs machine s base limit disk process ending := by
  rcases hfound : command.process? s base disk with _ | process
  · exact .inl rfl
  rcases hfault : process.fault? with _ | e
  · exact .inr (.inr ⟨process, _, hfound, hfault, rfl⟩)
  · exact .inr (.inl ⟨process, e, rfl, hfault⟩)

/-- A command with a result ran a process that came to its own end, with the status of the result
and the output that it tells. -/
theorem runner_ok {r : CommandResult}
    (h : (machine.runner s base limit command disk).1 = .ok r) :
    ∃ process ending output text, command.Runs machine s base limit disk process ending ∧
      ending.finished? = some (r.status, output) ∧ Utf8.decode output = .ok text ∧
      r.output = text.normalizeNewlines := by
  obtain hnone | ⟨process, e, hfound, hfault⟩ | ⟨process, ending, hruns⟩ :=
    process?_cases machine s base limit command disk
  · rw [runner_of_none hnone] at h
    cases h
  · rw [runner_of_fault hfound hfault] at h
    cases h
  · rw [hruns.runner] at h
    obtain ⟨output, text, hrest⟩ := finished_of_outcome h
    exact ⟨process, ending, output, text, hruns, hrest⟩

/-- A plain command without a result fails with a problem of the command, unless it goes
unreported. -/
theorem runner_error (hplain : command.IsPlain base) {e : Failure}
    (h : (machine.runner s base limit command disk).1 = .error e) :
    (∃ p, e = .problem p ∧ p.report.category = .command) ∨
      command.Unreported machine s base limit disk e := by
  obtain hnone | ⟨process, e', hfound, hfault⟩ | ⟨process, ending, hruns⟩ :=
    process?_cases machine s base limit command disk
  · rw [runner_of_none hnone] at h
    cases h
    exact .inl ⟨_, rfl, rfl⟩
  · rw [runner_of_fault hfound hfault] at h
    cases h
    exact .inr (.unpassed hfound ((hplain.fault? hfound).1 hfault))
  · rw [hruns.runner] at h
    obtain hproblem | ⟨rfl, rfl⟩ | ⟨status, output, fault, hfinished, hdecode, rfl⟩ :=
      outcome_error h
    · exact .inl hproblem
    · exact .inr (.unbounded hruns)
    · exact .inr (.undecodable hruns hfinished hdecode)

/-- A plain command that goes unreported fails in that way. -/
theorem Unreported.runner (hplain : command.IsPlain base) {e : Failure}
    (h : command.Unreported machine s base limit disk e) :
    (machine.runner s base limit command disk).1 = .error e := by
  cases h with
  | unpassed hfound h => exact runner_of_fault hfound ((hplain.fault? hfound).2 h)
  | undecodable hruns hfinished h => rw [hruns.runner, outcome_of_finished hfinished, result, h]
  | unbounded hruns =>
    rw [hruns.runner]
    rfl

end Command

end ProviderKit
