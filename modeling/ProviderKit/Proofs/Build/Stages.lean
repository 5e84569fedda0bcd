import Mathlib.Tactic.ByContra
import ProviderKit.Build.Pipeline
import ProviderKit.Proofs.Disk.Removal
import ProviderKit.Proofs.Run.Perform

/-!
# The parts of a build

A build is a preparation, the stages in the staging directory, and the cleaning up behind them.
`perform_run` takes a run of a build apart in that way: the stages alone decide the outcome, and the
cleaning up has the last word on the world. What a relation between worlds has to be indifferent to
so that the bodies of the stages keep it is `Run.Unaffected`.
-/

namespace ProviderKit

/-- The message is said by the way: it is what stages say, and neither a warning, nor the reason why
a run failed, nor what comes out of a task. A text that is shown as it is ends its line. -/
def Message.isAside : Message → Bool
  | .info _ | .success _ | .debug _ | .toolOutput _ | .log _ => true
  | .notice t => t.hasSuffix "\n"
  | .warning _ | .error _ | .suggest _ | .data _ | .page _ => false

namespace Run

variable {α : Type} {R : World → World → Prop}

/-- A lasting relation that sees neither the disk nor what is said by the way. -/
structure Unaffected (R : World → World → Prop) : Prop extends Lasting R where
  disk : ∀ (w : World) (disk : Disk), R w { w with disk }
  say : ∀ (w : World) (m : Message), m.isAside = true →
    R w { w with messages := w.messages ++ [m] }

/-- What is known from the start changes nothing. -/
theorem Unaffected.ofExcept (hR : Unaffected R) (outcome : Except Failure α) :
    Relates R (ofExcept outcome) := .of_same hR.toLasting fun _ => rfl

/-- Looking at the disk changes nothing. -/
theorem Unaffected.look (hR : Unaffected R) (f : Disk → Except Failure α) :
    Relates R (look f) := .of_same hR.toLasting fun _ => rfl

/-- A run without a step changes nothing. -/
theorem Unaffected.pure (hR : Unaffected R) (a : α) : Relates R (pure a : Run α) :=
  .of_same hR.toLasting fun _ => rfl

/-- A message by the way is not seen. -/
theorem Unaffected.message (hR : Unaffected R) {m : Message} (h : m.isAside = true) :
    Relates R (Run.say m) := fun w => hR.say w m h

/-- A step on the disk is not seen. -/
theorem Unaffected.step (hR : Unaffected R) (f : Disk → Except Failure α × Disk) :
    Relates R (step f) := fun w => by rw [perform_step]; exact hR.disk w _

/-- A request to the disk is not seen. -/
theorem Unaffected.request (hR : Unaffected R) (f : Disk → Except Disk.Fault Disk) :
    Relates R (request f) := hR.step _

/-- A request of several steps is not seen. -/
theorem Unaffected.requests (hR : Unaffected R) (f : Disk → Except Disk.Fault Unit × Disk) :
    Relates R (requests f) := hR.step _

/-- Messages by the way are not seen. -/
theorem Unaffected.messages (hR : Unaffected R) (w : World) {messages : List Message}
    (h : ∀ m ∈ messages, m.isAside = true) : R w { w with messages := w.messages ++ messages } := by
  induction messages generalizing w with
  | nil => simpa only [List.append_nil] using hR.refl w
  | cons m messages ih =>
    obtain ⟨hfirst, hrest⟩ := List.forall_mem_cons.1 h
    have hboth := hR.trans (hR.say w m hfirst) (ih { w with messages := w.messages ++ [m] } hrest)
    simpa only [List.append_assoc, List.singleton_append] using hboth

/-- A call is not seen if the record of calls is not. -/
theorem Unaffected.call (hR : Unaffected R)
    (hcall : ∀ (w : World) (call : Call), R w { w with calls := w.calls ++ [call] })
    (runner : Runner) (records : Records) (command : Command) :
    Relates R (call runner records command) := by
  intro w
  have hrecord := hcall w ⟨command, w.disk⟩
  have hdisk := hR.disk { w with calls := w.calls ++ [⟨command, w.disk⟩] }
    (runner command w.disk).2
  have hlog : ∀ m ∈ (records command w.disk).map Message.log, m.isAside = true := by
    simp [Message.isAside]
  have hlogged := hR.trans (hR.trans hrecord hdisk) (hR.messages _ hlog)
  rw [perform_call]
  rcases (runner command w.disk).1 with e | result
  · cases e
    case interrupted => exact hR.trans hlogged (hR.say _ cancelled rfl)
    all_goals simpa only [List.append_nil] using hlogged
  · simpa only [List.append_nil] using hlogged

end Run

/-- The world once a stage has announced itself. -/
def World.announced (w : World) (s : Stage) : World :=
  { w with messages := w.messages ++ [.debug ("Stage: " ++ Text.ofString s.word)] }

/-- The world once a stage has been recorded. -/
def World.recorded (w : World) (s : Stage) : World :=
  { w with completed := w.completed ++ [s] }

namespace Build

variable {α β : Type} {R : World → World → Prop}

/-- Everything before the stages in the staging directory: the declarations are generated, the
package is looked at, and the staging directory is made. -/
def prepare [Interpreter] (b : Build) : Run (Package × Path) := do
  let _ ← stage .generateTypes (generate b.draws b.directory)
  let package ← stage .discover b.discover
  let staging ← b.makeStaging
  Run.complete .prepareWorkspace
  Run.say (.debug ("Staging directory: " ++ staging.text))
  pure (package, staging)

/-- A build prepares, and then works in the staging directory and cleans up behind the work. -/
theorem run_eq [Interpreter] (b : Build) :
    b.run = b.prepare >>= fun (package, staging) =>
      Run.thenAlways (b.assemble package staging) (b.cleanUp staging) := by
  simp only [run, prepare, inStaging, bind_assoc, pure_bind]

/-- What the user is told when the staging directory cannot be removed. -/
def removalWarning (staging : Path) (fault : Disk.Fault) : Text :=
  "Could not remove build directory " ++ staging.text ++ ": " ++ fault.message

/-- A staging directory that is kept is announced, and nothing else happens. -/
theorem perform_removeStaging_retain [Interpreter] {b : Build} (h : b.settings.retain = true)
    (staging : Path) (w : World) : (b.removeStaging staging).perform w = (.ok (), { w with
      messages := w.messages ++ [.info ("Retained build directory " ++ staging.text)] }) := by
  rw [removeStaging, if_pos h, Run.perform_say]

/-- What is said when a staging directory has been removed as far as that goes: what the system
reports becomes a warning. -/
def removalWarnings (staging : Path) : Except Disk.Fault Unit → List Message
  | .ok () => []
  | .error fault =>
    if fault.isReported then [.warning (removalWarning staging fault)] else []

/-- All of that are warnings that name the directory. -/
theorem mem_removalWarnings {staging : Path} {outcome : Except Disk.Fault Unit} {m : Message}
    (h : m ∈ removalWarnings staging outcome) :
    ∃ fault, m = .warning (removalWarning staging fault) := by
  cases outcome with
  | ok _ => cases h
  | error fault =>
    dsimp only [removalWarnings] at h
    split at h
    · exact ⟨fault, List.mem_singleton.1 h⟩
    · cases h

/-- How removing a staging directory ends: only what the system does not report is a failure. -/
def removalOutcome : Except Disk.Fault Unit → Except Failure Unit
  | .ok () => .ok ()
  | .error fault => if fault.isReported then .ok () else .error (.disk fault)

/-- A staging directory that is not kept is removed as far as that goes. -/
theorem perform_removeStaging [Interpreter] {b : Build} (h : b.settings.retain = false)
    (staging : Path) (w : World) : (b.removeStaging staging).perform w =
      (removalOutcome (w.disk.removeTree staging).1, { w with
        disk := (w.disk.removeTree staging).2
        messages := w.messages ++ removalWarnings staging (w.disk.removeTree staging).1 }) := by
  rw [removeStaging, if_neg (by simp [h]), Run.perform_bind_ok _ (Run.perform_disk w)]
  rcases w.disk.removeTree staging with ⟨outcome, disk⟩
  rw [Run.perform_bind_ok _ (Run.perform_change _ w)]
  rcases outcome with fault | ⟨⟩
  · dsimp only [removalOutcome, removalWarnings]
    cases fault.isReported
    · simp only [Bool.false_eq_true, if_false, List.append_nil]
      rfl
    · rfl
  · simp [removalOutcome, removalWarnings]

/-- The staging directory can be cleaned up: it is kept, or nothing keeps it from being removed but
what the system reports. -/
def Tidies [Interpreter] (b : Build) (staging : Path) (disk : Disk) : Prop :=
  b.settings.retain = true ∨
    ∀ fault, (disk.removeTree staging).1 = .error fault → fault.isReported = true

/-- A staging directory whose path can be named is cleaned up unless something in it is more levels
down than the interpreter removes. -/
theorem tidies_iff [Interpreter] {b : Build} {staging : Path} {disk : Disk}
    (hgivable : Disk.IsGivable staging) :
    b.Tidies staging disk ↔ b.settings.retain = true ∨
      ∀ place, disk.find false staging = .ok (place, .directory) →
        disk.Shallow Interpreter.removing place := by
  refine or_congr_right ?_
  constructor
  · intro h place hfind
    by_contra hdeep
    have hfault := h _ ((Disk.removeTree_tooDeep_iff hgivable).2 ⟨place, hfind, hdeep⟩)
    cases hfault
  · intro h fault hremoved
    rcases Disk.removeTree_error hgivable (Prod.ext hremoved rfl) with
      hreported | ⟨-, place, entry, hfind, hdeeper, -⟩
    · exact hreported
    · rw [Disk.deeper?_eq_none.2 (h place hfind)] at hdeeper
      cases hdeeper

/-- What can be cleaned up is: removing the staging directory does not fail. -/
theorem removeStaging_eq_ok [Interpreter] {b : Build} {staging : Path} {w : World}
    (h : b.Tidies staging w.disk) : ((b.removeStaging staging).perform w).1 = .ok () := by
  cases hretain : b.settings.retain
  · rw [perform_removeStaging hretain]
    rcases hremoved : (w.disk.removeTree staging).1 with fault | ⟨⟩
    · have hreported := h.resolve_left (by simp [hretain]) fault hremoved
      dsimp only [removalOutcome]
      rw [if_pos hreported]
    · rfl
  · rw [perform_removeStaging_retain hretain]

/-- Cleaning up does not fail where that can be done. It records itself last. -/
theorem perform_cleanUp [Interpreter] {b : Build} {staging : Path} {w : World}
    (h : b.Tidies staging w.disk) :
    (b.cleanUp staging).perform w = (.ok (), { ((b.removeStaging staging).perform w).2 with
      completed := ((b.removeStaging staging).perform w).2.completed ++ [.cleanup] }) := by
  rw [cleanUp, Run.perform_bind_ok _ (Prod.ext (removeStaging_eq_ok h) rfl), Run.perform_complete]

/-- Otherwise cleaning up fails, says nothing and records nothing, and some of what is in the
staging directory is still there. -/
theorem perform_cleanUp_stuck [Interpreter] {b : Build} {staging : Path} {w : World}
    (h : ¬ b.Tidies staging w.disk) :
    b.settings.retain = false ∧ ∃ fault, fault.isReported = false ∧
      (w.disk.removeTree staging).1 = .error fault ∧
      (b.cleanUp staging).perform w =
        (.error (.disk fault), { w with disk := (w.disk.removeTree staging).2 }) := by
  unfold Tidies at h
  push Not at h
  obtain ⟨hretain, fault, hremoved, hreported⟩ := h
  have hretain : b.settings.retain = false := by simpa using hretain
  have hreported : fault.isReported = false := by simpa using hreported
  refine ⟨hretain, fault, hreported, hremoved, ?_⟩
  have hfails : (b.removeStaging staging).perform w =
      (.error (.disk fault), { w with disk := (w.disk.removeTree staging).2 }) := by
    rw [perform_removeStaging hretain, hremoved]
    simp [removalOutcome, removalWarnings, hreported]
  rw [cleanUp, Run.perform_bind_error _ hfails]

/-- However cleaning up ends, it changes the disk only where the staging directory is to be removed,
and adds to what was said and recorded before. -/
theorem cleanUp_world [Interpreter] (b : Build) (staging : Path) (w : World) :
    ∃ said recorded, ((b.cleanUp staging).perform w).2 = { w with
      disk := if b.settings.retain then w.disk else (w.disk.removeTree staging).2
      messages := w.messages ++ said
      completed := w.completed ++ recorded } := by
  by_cases h : b.Tidies staging w.disk
  · rw [perform_cleanUp h]
    cases hretain : b.settings.retain
    · rw [perform_removeStaging hretain]
      exact ⟨_, _, rfl⟩
    · rw [perform_removeStaging_retain hretain]
      exact ⟨_, _, rfl⟩
  · obtain ⟨hretain, fault, -, -, hclean⟩ := perform_cleanUp_stuck h
    rw [hclean, hretain]
    exact ⟨[], [], by simp⟩

/-- Cleaning up makes no calls. -/
theorem cleanUp_calls [Interpreter] (b : Build) (staging : Path) (w : World) :
    ((b.cleanUp staging).perform w).2.calls = w.calls := by
  obtain ⟨said, recorded, hclean⟩ := b.cleanUp_world staging w
  rw [hclean]

/-- Cleaning up leaves the disk, or what is left of it when the staging directory is removed. -/
theorem cleanUp_disk [Interpreter] (b : Build) (staging : Path) (w : World) :
    ((b.cleanUp staging).perform w).2.disk =
      if b.settings.retain then w.disk else (w.disk.removeTree staging).2 := by
  obtain ⟨said, recorded, hclean⟩ := b.cleanUp_world staging w
  rw [hclean]

/-- A build whose preparation fails ends there. -/
theorem perform_run_of_error [Interpreter] {b : Build} {w w₁ : World} {e : Failure}
    (h : b.prepare.perform w = (.error e, w₁)) : b.run.perform w = (.error e, w₁) := by
  rw [run_eq, Run.perform_bind_error _ h]

section Prepared

variable [Interpreter] {b : Build} {w w₁ : World} {package : Package} {staging : Path}
  (h : b.prepare.perform w = (.ok (package, staging), w₁))
include h

/-- The world is the one that cleaning up leaves. -/
theorem perform_run_world : (b.run.perform w).2 =
    ((b.cleanUp staging).perform ((b.assemble package staging).perform w₁).2).2 := by
  rw [run_eq, Run.perform_bind_ok _ h]
  rw [Run.perform_thenAlways]

/-- Where cleaning up can be done, the stages in the staging directory alone decide the outcome of a
build. -/
theorem perform_run (htidy : b.Tidies staging ((b.assemble package staging).perform w₁).2.disk) :
    b.run.perform w = (((b.assemble package staging).perform w₁).1,
      ((b.cleanUp staging).perform ((b.assemble package staging).perform w₁).2).2) := by
  rw [run_eq, Run.perform_bind_ok _ h]
  dsimp only
  rw [Run.perform_thenAlways, perform_cleanUp htidy]

/-- Otherwise the build fails with what is in the way of that, whatever the stages came to. -/
theorem perform_run_stuck
    (hstuck : ¬ b.Tidies staging ((b.assemble package staging).perform w₁).2.disk) :
    ∃ fault, fault.isReported = false ∧
      (((b.assemble package staging).perform w₁).2.disk.removeTree staging).1 = .error fault ∧
      b.run.perform w = (.error (.disk fault),
        ((b.cleanUp staging).perform ((b.assemble package staging).perform w₁).2).2) := by
  obtain ⟨-, fault, hreported, hremoved, hclean⟩ := perform_cleanUp_stuck hstuck
  refine ⟨fault, hreported, hremoved, ?_⟩
  rw [run_eq, Run.perform_bind_ok _ h]
  dsimp only
  rw [Run.perform_thenAlways, hclean]

/-- A build that gives an artifact gives that of its stages, and cleaning up was done. -/
theorem run_eq_ok {artifact : Artifact} {left : World}
    (hrun : b.run.perform w = (.ok artifact, left)) :
    b.Tidies staging ((b.assemble package staging).perform w₁).2.disk ∧
      ((b.assemble package staging).perform w₁).1 = .ok artifact ∧
      left = ((b.cleanUp staging).perform ((b.assemble package staging).perform w₁).2).2 := by
  by_cases htidy : b.Tidies staging ((b.assemble package staging).perform w₁).2.disk
  · rw [perform_run h htidy] at hrun
    obtain ⟨houtcome, rfl⟩ := Prod.mk.inj hrun
    exact ⟨htidy, houtcome, rfl⟩
  · obtain ⟨fault, -, -, hfails⟩ := perform_run_stuck h htidy
    rw [hfails] at hrun
    cases hrun

end Prepared

/-- A stage announces itself, and if its body gives a result it is recorded. -/
theorem perform_stage (s : Stage) (body : Run α) (w : World) :
    (stage s body).perform w =
      match body.perform (w.announced s) with
      | (.ok a, w') => (.ok a, w'.recorded s)
      | (.error e, w') => (.error e, w') := by
  rw [stage, Run.perform_bind_ok _ (Run.perform_say _ w), Run.perform_bind]
  change (match body.perform (w.announced s) with | (.ok a, w') => _ | (.error e, w') => _) = _
  split
  next a w' heq => rw [Run.perform_bind_ok _ (Run.perform_complete _ _), Run.perform_pure]; rfl
  next e w' heq => rfl

/-- A stage whose body fails ends there. -/
theorem perform_stage_error {s : Stage} {body : Run α} {e : Failure} {w w' : World}
    (h : body.perform (w.announced s) = (.error e, w')) :
    (stage s body).perform w = (.error e, w') := by
  rw [perform_stage, h]

/-- A stage whose body gives a result is recorded. -/
theorem perform_stage_ok {s : Stage} {body : Run α} {a : α} {w w' : World}
    (h : body.perform (w.announced s) = (.ok a, w')) :
    (stage s body).perform w = (.ok a, w'.recorded s) := by
  rw [perform_stage, h]

/-- A stage that gives a result is recorded behind what its body did. -/
theorem stage_ok {s : Stage} {body : Run α} {a : α} {w w₁ : World}
    (h : (stage s body).perform w = (.ok a, w₁)) :
    ∃ w', body.perform (w.announced s) = (.ok a, w') ∧ w₁ = w'.recorded s := by
  rcases hbody : body.perform (w.announced s) with ⟨e | a', w'⟩
  · rw [perform_stage_error hbody] at h
    cases h
  · rw [perform_stage_ok hbody] at h
    cases h
    exact ⟨w', rfl, rfl⟩

/-- A stage that fails has a body that does. -/
theorem stage_error {s : Stage} {body : Run α} {e : Failure} {w w₁ : World}
    (h : (stage s body).perform w = (.error e, w₁)) :
    body.perform (w.announced s) = (.error e, w₁) := by
  rcases hbody : body.perform (w.announced s) with ⟨e' | a, w'⟩
  · rw [perform_stage_error hbody] at h
    exact h
  · rw [perform_stage_ok hbody] at h
    cases h

/-- A package that the stage of discovery gives was discovered on the disk, which stays. -/
theorem discover_ok [Interpreter] {b : Build} {w w₁ : World} {package : Package}
    (h : (stage .discover b.discover).perform w = (.ok package, w₁)) :
    Package.discover w.disk b.directory = .ok package ∧ w₁.disk = w.disk ∧
      w₁.calls = w.calls := by
  obtain ⟨w', hbody, rfl⟩ := stage_ok h
  unfold discover at hbody
  obtain ⟨found, looked, hlook, hsay⟩ := Run.perform_bind_eq_ok hbody
  rw [Run.perform_look] at hlook
  rw [Run.perform_bind_ok _ (Run.perform_say _ _), Run.perform_pure] at hsay
  cases hsay
  obtain ⟨hfound, rfl⟩ := Prod.mk.inj hlook
  exact ⟨hfound, rfl, rfl⟩

/-- What was prepared: the declarations were generated, the package was found, and the staging
directory was made, one after the other. -/
theorem prepare_ok [Interpreter] {b : Build} {w w₁ : World} {package : Package} {staging : Path}
    (h : b.prepare.perform w = (.ok (package, staging), w₁)) :
    ∃ types generated found made,
      (stage .generateTypes (generate b.draws b.directory)).perform w = (.ok types, generated) ∧
      (stage .discover b.discover).perform generated = (.ok package, found) ∧
      b.makeStaging.perform found = (.ok staging, made) ∧
      w₁ = { made with
        completed := made.completed ++ [.prepareWorkspace]
        messages := made.messages ++ [.debug ("Staging directory: " ++ staging.text)] } := by
  unfold prepare at h
  obtain ⟨types, generated, hgenerate, h⟩ := Run.perform_bind_eq_ok h
  obtain ⟨package', found, hdiscover, h⟩ := Run.perform_bind_eq_ok h
  obtain ⟨staging', made, hmake, h⟩ := Run.perform_bind_eq_ok h
  rw [Run.perform_bind_ok _ (Run.perform_complete _ _),
    Run.perform_bind_ok _ (Run.perform_say _ _), Run.perform_pure] at h
  cases h
  exact ⟨types, generated, found, made, hgenerate, hdiscover, hmake, rfl⟩

/-! ## The bodies of the stages -/

/-- Generating declarations works on the disk and says only details. -/
theorem generate_relates [Interpreter] (hR : Run.Unaffected R) (draws : List Text)
    (directory : Path) :
    Run.Relates R (generate draws directory) := by
  unfold generate
  refine .bind hR.toLasting (hR.look _) fun _ => ?_
  refine .bind hR.toLasting (hR.message rfl) fun _ => ?_
  refine .bind hR.toLasting (hR.look _) fun _ => ?_
  refine .bind hR.toLasting (hR.ofExcept _) fun _ => ?_
  refine .bind hR.toLasting (hR.step _) fun _ => ?_
  exact .bind hR.toLasting (hR.message rfl) fun _ => hR.pure _

/-- Looking at the package reads the disk and says a detail. -/
theorem discover_relates [Interpreter] (hR : Run.Unaffected R) (b : Build) :
    Run.Relates R b.discover := by
  unfold discover
  refine .bind hR.toLasting (hR.look _) fun _ => ?_
  exact .bind hR.toLasting (hR.message rfl) fun _ => hR.pure _

/-- Making the staging directory is a request to the disk. -/
theorem makeStaging_relates (hR : Run.Unaffected R) (b : Build) :
    Run.Relates R b.makeStaging := by
  unfold makeStaging
  refine .bind hR.toLasting (hR.look _) fun _ => ?_
  refine .bind hR.toLasting (hR.look _) fun _ => ?_
  exact .bind hR.toLasting (hR.request _) fun _ => hR.pure _

/-- Compiling is a call with a word about it. -/
theorem compile_relates (hR : Run.Unaffected R)
    (hcall : ∀ (w : World) (call : Call), R w { w with calls := w.calls ++ [call] })
    (b : Build) (package : Package) (staging : Path) :
    Run.Relates R (b.compile package staging) := by
  unfold compile
  refine .bind hR.toLasting (hR.message rfl) fun _ => ?_
  refine .bind hR.toLasting (hR.call hcall _ _ _) fun _ => ?_
  exact .ite (hR.message rfl) (hR.ofExcept _)

/-- Writing a text is a request or two. -/
theorem writeText_relates (hR : Run.Unaffected R) (path : Path) (text : Text) :
    Run.Relates R (writeText path text) := by
  unfold writeText
  refine .bind hR.toLasting (hR.request _) fun _ => ?_
  split
  · exact hR.request _
  · exact hR.ofExcept _

/-- Putting the package file into the staging directory works on the disk. -/
theorem stagePackage_relates [Interpreter] (hR : Run.Unaffected R) (b : Build) (package : Package)
    (staging : Path) : Run.Relates R (b.stagePackage package staging) := by
  unfold stagePackage
  split
  · exact .bind hR.toLasting (hR.request _) fun _ => hR.pure _
  · refine .bind hR.toLasting (hR.ofExcept _) fun _ => ?_
    refine .bind hR.toLasting (hR.look _) fun _ => ?_
    refine .bind hR.toLasting (hR.ofExcept _) fun _ => ?_
    refine .bind hR.toLasting (writeText_relates hR _ _) fun _ => ?_
    exact .bind hR.toLasting (hR.message rfl) fun _ => hR.pure _

/-- Copies a lock file into the staging directory, if there is one to copy. -/
def stageLock (b : Build) (staging : Path) : Option Text → Run Unit
  | none => pure ()
  | some name => Run.request fun disk => disk.copy (b.directory.child name) (staging.child name)

/-- Copies the files that are staged as they are: the manifest and the lock file. -/
def stageCopies (b : Build) (package : Package) (staging : Path) : Run Unit := do
  Run.request fun disk => disk.copy (b.directory.child manifestFilename)
    (staging.child manifestFilename)
  b.stageLock staging (← b.strategy package).lockFilename

/-- Putting the manifest and the lock file there works on the disk. -/
theorem stageFiles_relates (hR : Run.Unaffected R) (b : Build) (package : Package)
    (staging : Path) : Run.Relates R (b.stageFiles package staging) := by
  have hlock : ∀ name? : Option Text, Run.Relates R (b.stageLock staging name?) := by
    intro name?
    cases name? with
    | none => exact hR.pure _
    | some name => exact hR.request _
  have hcopies : Run.Relates R (b.stageCopies package staging) := by
    refine .bind hR.toLasting (hR.request _) fun _ => ?_
    exact .bind hR.toLasting (hR.ofExcept _) fun strategy => hlock strategy.lockFilename
  unfold stageFiles
  refine .bind hR.toLasting (hR.look _) fun _ => ?_
  exact .ite (.bind hR.toLasting (hR.ofExcept _) fun _ => hcopies) hcopies

/-- Installing is a call with a word about it. -/
theorem installDependencies_relates (hR : Run.Unaffected R)
    (hcall : ∀ (w : World) (call : Call), R w { w with calls := w.calls ++ [call] })
    (b : Build) (package : Package) (staging : Path) :
    Run.Relates R (b.installDependencies package staging) := by
  unfold installDependencies
  refine .bind hR.toLasting (hR.ofExcept _) fun _ => ?_
  refine .bind hR.toLasting (hR.message rfl) fun _ => ?_
  refine .bind hR.toLasting (hR.call hcall _ _ _) fun _ => ?_
  exact .ite (hR.message rfl) (hR.ofExcept _)

/-- Packing works on the disk and says where the archive is. -/
theorem packArchive_relates [Interpreter] (hR : Run.Unaffected R) (b : Build) (package : Package)
    (staging : Path) : Run.Relates R (b.packArchive package staging) := by
  unfold packArchive Archive.pack
  refine .bind hR.toLasting ?_ fun _ => .bind hR.toLasting (hR.message rfl) fun _ => hR.pure _
  refine .bind hR.toLasting (hR.requests _) fun _ => ?_
  refine .bind hR.toLasting (hR.request _) fun _ => ?_
  refine .bind hR.toLasting (hR.look _) fun _ => ?_
  refine .bind hR.toLasting (hR.look _) fun unreached => ?_
  refine .bind hR.toLasting (hR.request _) fun _ => ?_
  cases unreached with
  | none => exact hR.pure _
  | some path => exact hR.ofExcept _

/-! ## Whole parts of a build -/

/-- A stage keeps what its body keeps, if the record is not seen. -/
theorem stage_relates (hR : Run.Unaffected R) (hrecord : ∀ w s, R w (World.recorded w s))
    (s : Stage) {body : Run α} (h : Run.Relates R body) : Run.Relates R (stage s body) := by
  unfold stage
  refine .bind hR.toLasting (hR.message rfl) fun _ => ?_
  refine .bind hR.toLasting h fun _ => ?_
  exact .bind hR.toLasting (fun w => hrecord w s) fun _ => hR.pure _

/-- The preparation of a build changes the disk and the record, and says details. -/
theorem prepare_relates [Interpreter] (hR : Run.Unaffected R)
    (hrecord : ∀ w s, R w (World.recorded w s)) (b : Build) : Run.Relates R b.prepare := by
  unfold prepare
  refine .bind hR.toLasting (stage_relates hR hrecord _ (generate_relates hR _ _)) fun _ => ?_
  refine .bind hR.toLasting (stage_relates hR hrecord _ (discover_relates hR b)) fun _ => ?_
  refine .bind hR.toLasting (makeStaging_relates hR b) fun _ => ?_
  refine .bind hR.toLasting (fun w => hrecord w _) fun _ => ?_
  exact .bind hR.toLasting (hR.message rfl) fun _ => hR.pure _

/-- The work in the staging directory makes calls besides. -/
theorem assemble_relates [Interpreter] (hR : Run.Unaffected R)
    (hrecord : ∀ w s, R w (World.recorded w s))
    (hcall : ∀ (w : World) (call : Call), R w { w with calls := w.calls ++ [call] }) (b : Build)
    (package : Package) (staging : Path) :
    Run.Relates R (b.assemble package staging) := by
  have hstage : ∀ {β : Type} (s : Stage) {body : Run β}, Run.Relates R body →
      Run.Relates R (stage s body) := fun s _ => stage_relates hR hrecord s
  have hrest : Run.Relates R (do
      let version ← stage .resolveVersion (b.stagePackage package staging)
      stage .stageFiles (b.stageFiles package staging)
      stage .installDependencies (b.installDependencies package staging)
      let archive ← stage .archive (b.packArchive package staging)
      pure (⟨staging, archive, package.name, version⟩ : Artifact)) := by
    refine .bind hR.toLasting (hstage _ (stagePackage_relates hR _ _ _)) fun _ => ?_
    refine .bind hR.toLasting (hstage _ (stageFiles_relates hR _ _ _)) fun _ => ?_
    refine .bind hR.toLasting (hstage _ (installDependencies_relates hR hcall _ _ _)) fun _ => ?_
    exact .bind hR.toLasting (hstage _ (packArchive_relates hR _ _ _)) fun _ => hR.pure _
  unfold assemble
  exact .ite (.bind hR.toLasting (hstage _ (compile_relates hR hcall _ _ _)) fun _ => hrest) hrest

/-! ## A small project -/

/-- The text of a package file that gives the package a name. -/
def smallText : Content := .ofChars "\x7b\"name\":\"x\"\x7d".toList

/-- A project with a schema, a package file and a manifest, and a directory for temporary
entries. -/
def smallDisk : Disk where
  entries :=
    [([Text.ofString "t"], .directory),
     ([Text.ofString "p"], .directory),
     ([Text.ofString "p", "schema.json"], .file .usual (.ofChars "\x7b\x7d".toList)),
     ([Text.ofString "p", packageFilename], .file .usual smallText),
     ([Text.ofString "p", manifestFilename], .file .usual (.ofChars "m".toList))]

/-- A build of the small project with tools that do nothing. -/
def small : Build where
  settings := { directory := ⟨.single, ["p"]⟩, hostRoot := ⟨.single, ["h"]⟩ }
  runner _ disk := (.ok ⟨0, []⟩, disk)
  temporaryDirectories := [⟨.single, ["t"]⟩]
  draws := ["a"]

/-- The world in which the small project is built. -/
def smallWorld : World := { disk := smallDisk }

/-- The small project gets a staging directory. -/
theorem small_prepares : ∃ w₁, small.prepare.perform smallWorld =
    (.ok (⟨"x", "0.0.0", false, .none⟩, ⟨.single, ["t", "provider-build-a"]⟩), w₁) := by
  have h : (small.prepare.perform smallWorld).1.toOption =
      some (⟨"x", "0.0.0", false, .none⟩, ⟨.single, ["t", "provider-build-a"]⟩) := by
    decide +kernel
  rcases hprepare : small.prepare.perform smallWorld with ⟨e | result, w₁⟩
  · rw [hprepare] at h
    cases h
  · rw [hprepare] at h
    cases h
    exact ⟨w₁, rfl⟩

end Build

end ProviderKit
