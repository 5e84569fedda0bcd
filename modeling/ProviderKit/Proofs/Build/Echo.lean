import ProviderKit.Proofs.Build.Cleanup
import ProviderKit.Proofs.Build.Frame
import ProviderKit.Proofs.Install.Steps
import ProviderKit.Proofs.Run.Echo

/-!
# Builds whose tools print something else

What a build does besides calling its tools is plain (`generate_plain` and so on), and both of its
tools are called and reported in the same manner. So a build goes the same way whatever they print
(`run_echoes`), and so does the installation of what it has made.
-/

namespace ProviderKit

open Run (Plain Echoes Echoed Ends AllWell Never)

variable {other : Runner}

/-! ## What calls no tool -/

/-- Generating the declarations calls no tool. -/
theorem generate_plain [Interpreter] (draws : List Text) (directory : Path) :
    Plain (generate draws directory) := by
  unfold generate
  refine .bind (.look _) fun _ => .bind (.say rfl) fun _ => ?_
  refine .bind (.look _) fun _ => .bind (.ofExcept _) fun _ => ?_
  exact .bind (.step _) fun _ => .bind (.say rfl) fun _ => .pure _

namespace Build

variable (b : Build) (package : Package) (staging : Path)

/-- Looking at the package calls no tool. -/
theorem discover_plain [Interpreter] : Plain b.discover := by
  unfold discover
  exact .bind (.look _) fun _ => .bind (.say rfl) fun _ => .pure _

/-- Making the staging directory calls no tool. -/
theorem makeStaging_plain : Plain b.makeStaging := by
  unfold makeStaging
  refine .bind (.look _) fun _ => .bind (.look _) fun _ => ?_
  exact .bind (.step _) fun _ => .pure _

/-- Writing a text calls no tool. -/
theorem writeText_plain (path : Path) (text : Text) : Plain (writeText path text) := by
  unfold writeText
  refine .bind (.step _) fun _ => ?_
  split
  · exact .step _
  · exact .ofExcept _

/-- Putting the package file into the staging directory calls no tool. -/
theorem stagePackage_plain [Interpreter] : Plain (b.stagePackage package staging) := by
  unfold stagePackage
  split
  · exact .bind (.step _) fun _ => .pure _
  · refine .bind (.ofExcept _) fun _ => .bind (.look _) fun _ => ?_
    refine .bind (.ofExcept _) fun _ => .bind (writeText_plain _ _) fun _ => ?_
    exact .bind (.say rfl) fun _ => .pure _

/-- Putting the manifest and the lock file there calls no tool. -/
theorem stageFiles_plain : Plain (b.stageFiles package staging) := by
  have hcopies : Plain (b.stageCopies package staging) := by
    refine .bind (.step _) fun _ => .bind (.ofExcept _) fun strategy => ?_
    cases strategy.lockFilename with
    | none => exact .pure _
    | some name => exact .step _
  unfold stageFiles
  refine .bind (.look _) fun _ => ?_
  exact .ite (.bind (.ofExcept _) fun _ => hcopies) hcopies

/-- Packing calls no tool. -/
theorem packArchive_plain [Interpreter] : Plain (b.packArchive package staging) := by
  have hpack : Plain (Archive.pack staging (b.archivePath package.name)) := by
    unfold Archive.pack
    refine .bind (.step _) fun _ => .bind (.step _) fun _ => .bind (.look _) fun _ => ?_
    refine .bind (.look _) fun unreached => .bind (.step _) fun _ => ?_
    cases unreached with
    | none => exact .pure _
    | some path => exact .ofExcept _
  unfold packArchive
  exact .bind hpack fun _ => .bind (.say rfl) fun _ => .pure _

/-- A stage calls no tool if its body calls none. -/
theorem stage_plain {α : Type} (s : Stage) {body : Run α} (h : Plain body) :
    Plain (stage s body) := by
  unfold stage
  exact .bind (.say rfl) fun _ => .bind h fun _ => .bind (.complete _) fun _ => .pure _

/-- Preparing a build calls no tool. -/
theorem prepare_plain [Interpreter] : Plain b.prepare := by
  unfold prepare
  refine .bind (stage_plain _ (generate_plain _ _)) fun _ => ?_
  refine .bind (stage_plain _ b.discover_plain) fun _ => .bind b.makeStaging_plain fun _ => ?_
  exact .bind (.complete _) fun _ => .bind (.say rfl) fun _ => .pure _

end Build

/-- Installing an artifact calls no tool. -/
theorem installArtifact_plain [Interpreter] (host : Path) (artifact : Artifact) :
    Plain (installArtifact host artifact) := by
  unfold installArtifact
  have hrest : ∀ directory, Plain (do
      if ← Run.look fun disk => orFail (disk.exists? directory) then
        Run.say (.debug ("Removing previous install at " ++ directory.text))
        Run.requests fun disk => disk.removeTree directory
      Run.requests fun disk => disk.makeDirectories false directory
      Run.step fun disk => Archive.unpack disk artifact.archive directory
      Run.say (.success ("Installed to " ++ directory.text))
      pure directory) := by
    intro directory
    have hmake : Plain (do
        Run.requests fun disk => disk.makeDirectories false directory
        Run.step fun disk => Archive.unpack disk artifact.archive directory
        Run.say (.success ("Installed to " ++ directory.text))
        pure directory) :=
      .bind (.step _) fun _ => .bind (.step _) fun _ => .bind (.say rfl) fun _ => .pure _
    refine .bind (.look _) fun there => .ite ?_ hmake
    exact .bind (.say rfl) fun _ => .bind (.step _) fun _ => hmake
  refine .bind (.look _) fun there => ?_
  exact .ite (.bind (.ofExcept _) fun _ => hrest _) (hrest _)

/-! ## The tools -/

namespace Build

variable {b : Build} {w w' : World}

/-- The build with another runner for its tools. -/
def runningWith (b : Build) (other : Runner) : Build := { b with runner := other }

/-- A stage goes the same way as one whose body does. -/
theorem stage_echoes {α : Type} (s : Stage) {body body' : Run α}
    (h : Echoes other Never body body') : Echoes other Never (stage s body) (stage s body') := by
  unfold stage
  refine .bind (Plain.say rfl).echoes fun _ => .bind h fun _ => ?_
  exact .bind (Plain.complete _).echoes fun _ => (Plain.pure _).echoes

/-- Compiling goes the same way whatever the compiler prints. -/
theorem compile_echoes (halike : Runner.Alike b.runner other) (package : Package)
    (staging : Path) :
    Echoes other Never (b.compile package staging)
      ((b.runningWith other).compile package staging) := by
  have hline : (compileCommand package.lockConvention staging).1.IsLine := by
    unfold compileCommand Text.IsLine
    dsimp only
    split <;> decide
  unfold compile
  refine .bind (Plain.say rfl).echoes fun _ => ?_
  exact Run.echoes_tool halike _ _ fun result => ⟨_, rfl, .compiler rfl hline⟩

/-- Installing the dependencies goes the same way whatever the package manager prints. -/
theorem installDependencies_echoes (hstandard : b.strategies ⊆ InstallStrategy.standard)
    (halike : Runner.Alike b.runner other) (package : Package) (staging : Path) :
    Echoes other Never (b.installDependencies package staging)
      ((b.runningWith other).installDependencies package staging) := by
  have hlines : ∀ entry ∈ InstallStrategy.standard, entry.2.args.head? ≠ some "tsc" ∧
      CodePoint.char '\n' ∉ entry.2.commandLine ∧ entry.2.commandLine.isWellFormed = true := by
    decide
  unfold installDependencies
  -- A strategy is selected before its command is called, so only those of the table count.
  refine .ofExcept_bind fun strategy hstrategy => .bind (Plain.say rfl).echoes fun _ => ?_
  have hmem := hstandard (InstallStrategy.mem_of_select (orProblem_eq_ok.1 hstrategy))
  obtain ⟨hother, hline⟩ := hlines _ hmem
  exact Run.echoes_tool halike _ _ fun result => ⟨_, rfl, .installer hother hline⟩

/-- The work in the staging directory goes the same way whatever the tools print. -/
theorem assemble_echoes [Interpreter] (hstandard : b.strategies ⊆ InstallStrategy.standard)
    (halike : Runner.Alike b.runner other) (package : Package) (staging : Path) :
    Echoes other Never (b.assemble package staging)
      ((b.runningWith other).assemble package staging) := by
  have hrest : Echoes other Never
      (do
        let version ← stage .resolveVersion (b.stagePackage package staging)
        stage .stageFiles (b.stageFiles package staging)
        stage .installDependencies (b.installDependencies package staging)
        let archive ← stage .archive (b.packArchive package staging)
        pure (⟨staging, archive, package.name, version⟩ : Artifact))
      (do
        let version ← stage .resolveVersion ((b.runningWith other).stagePackage package staging)
        stage .stageFiles ((b.runningWith other).stageFiles package staging)
        stage .installDependencies ((b.runningWith other).installDependencies package staging)
        let archive ← stage .archive ((b.runningWith other).packArchive package staging)
        pure (⟨staging, archive, package.name, version⟩ : Artifact)) := by
    refine .bind (stage_echoes _ (b.stagePackage_plain package staging).echoes) fun _ => ?_
    refine .bind (stage_echoes _ (b.stageFiles_plain package staging).echoes) fun _ => ?_
    refine .bind
      (stage_echoes _ (installDependencies_echoes hstandard halike package staging)) fun _ => ?_
    refine .bind (stage_echoes _ (b.packArchive_plain package staging).echoes) fun _ => ?_
    exact (Plain.pure _).echoes
  unfold assemble
  exact .ite (.bind (stage_echoes _ (compile_echoes halike package staging)) fun _ => hrest) hrest

/-- A warning is no output of a tool. -/
theorem removalWarnings_echoed (h : Echoed other w w') (staging : Path)
    (outcome : Except Disk.Fault Unit) :
    Echoed other { w with messages := w.messages ++ removalWarnings staging outcome }
      { w' with messages := w'.messages ++ removalWarnings staging outcome } := by
  rcases outcome with fault | ⟨⟩
  · by_cases hreported : fault.isReported = true
    · simpa only [removalWarnings, hreported, if_true] using
        h.say (m := .warning (removalWarning staging fault)) rfl
    · simpa only [removalWarnings, if_neg hreported, List.append_nil] using h
  · simpa only [removalWarnings, List.append_nil] using h

/-- Cleaning up says nothing of the tools, and goes the same way even if one of them has failed. -/
theorem cleanUp_echoed [Interpreter] (h : Echoed other w w') (staging : Path) :
    Echoed other ((b.cleanUp staging).perform w).2
      (((b.runningWith other).cleanUp staging).perform w').2 := by
  show Echoed other _ ((b.cleanUp staging).perform w').2
  by_cases htidy : b.Tidies staging w.disk
  · have htidy' : b.Tidies staging w'.disk := h.disk ▸ htidy
    rw [perform_cleanUp htidy, perform_cleanUp htidy']
    cases hretain : b.settings.retain with
    | true =>
      rw [perform_removeStaging_retain hretain, perform_removeStaging_retain hretain]
      have hsaid := h.say (m := .info ("Retained build directory " ++ staging.text)) rfl
      exact ⟨hsaid.disk, hsaid.calls, hsaid.said, hsaid.relayed⟩
    | false =>
      rw [perform_removeStaging hretain, perform_removeStaging hretain, h.disk]
      have hsaid := removalWarnings_echoed h staging (w.disk.removeTree staging).1
      exact ⟨rfl, hsaid.calls, hsaid.said, hsaid.relayed⟩
  · have htidy' : ¬ b.Tidies staging w'.disk := h.disk ▸ htidy
    obtain ⟨-, fault, -, -, hclean⟩ := perform_cleanUp_stuck htidy
    obtain ⟨-, fault', -, -, hclean'⟩ := perform_cleanUp_stuck htidy'
    rw [hclean, hclean', h.disk]
    exact ⟨rfl, h.calls, h.said, h.relayed⟩

/-- Both builds end as their stages do, or they get stuck when cleaning up. -/
theorem ends_of_cleanUp [Interpreter] {package : Package} {staging : Path} {v v' : World}
    (hprepare : b.prepare.perform w = (.ok (package, staging), v))
    (hprepare' : b.prepare.perform w' = (.ok (package, staging), v'))
    (hassembled : Echoed other ((b.assemble package staging).perform v).2
      (((b.runningWith other).assemble package staging).perform v').2)
    (hends : Ends other False ((b.assemble package staging).perform v).2.calls
      ((b.assemble package staging).perform v).1
      (((b.runningWith other).assemble package staging).perform v').1) :
    Ends other (b.Stuck w) (b.run.perform w).2.calls (b.run.perform w).1
      ((b.runningWith other).run.perform w').1 := by
  have htwo : (b.runningWith other).prepare.perform w' = (.ok (package, staging), v') := hprepare'
  have htidies : (b.runningWith other).Tidies staging
      (((b.runningWith other).assemble package staging).perform v').2.disk ↔
        b.Tidies staging ((b.assemble package staging).perform v).2.disk := by
    rw [hassembled.disk]
    exact Iff.rfl
  rw [perform_run_world hprepare, cleanUp_calls]
  by_cases hstuck : b.Stuck w
  · have hstuck' : (b.runningWith other).Stuck w' := by
      rw [stuck_iff htwo, htidies]
      exact (stuck_iff hprepare).1 hstuck
    rw [run_of_stuck hstuck, run_of_stuck hstuck']
    generalize ((b.assemble package staging).perform v).1 = outcome at hends
    generalize (((b.runningWith other).assemble package staging).perform v').1 = outcome' at hends
    cases hends with
    | same _ hwell => exact .same _ hwell
    | failed hlast hwell hfails _ => exact .replaced hlast hwell hfails hstuck
    | replaced _ _ _ hnever => exact hnever.elim
  · have htidy : b.Tidies staging ((b.assemble package staging).perform v).2.disk := by
      rwa [stuck_iff hprepare, not_not] at hstuck
    rw [perform_run hprepare htidy, perform_run htwo (htidies.2 htidy)]
    exact hends.of_never

/-- A build goes the same way whatever its tools print. -/
theorem run_echoes [Interpreter] (hstandard : b.strategies ⊆ InstallStrategy.standard)
    (halike : Runner.Alike b.runner other) :
    Echoes other b.Stuck b.run (b.runningWith other).run := by
  intro w w' hechoed hwell
  have hprepares : Echoes other Never b.prepare b.prepare := b.prepare_plain.echoes
  obtain ⟨hprepared, hends⟩ := hprepares w w' hechoed hwell
  rcases hone : b.prepare.perform w with ⟨outcome, v⟩
  rcases htwo : b.prepare.perform w' with ⟨outcome', v'⟩
  have htwo' : (b.runningWith other).prepare.perform w' = (outcome', v') := htwo
  rw [hone, htwo] at hprepared hends
  dsimp only at hprepared hends
  cases hends with
  | failed hlast hwell hfails htells =>
    rw [perform_run_of_error hone, perform_run_of_error htwo']
    exact ⟨hprepared, .failed hlast hwell hfails htells⟩
  | replaced _ _ _ hnever => exact hnever.elim
  | same outcome hwell =>
    rcases outcome with e | ⟨package, staging⟩
    · rw [perform_run_of_error hone, perform_run_of_error htwo']
      exact ⟨hprepared, .same _ hwell⟩
    · obtain ⟨hassembled, hends⟩ :=
        assemble_echoes hstandard halike package staging v v' hprepared hwell
      refine ⟨?_, ends_of_cleanUp hone htwo hassembled hends⟩
      rw [perform_run_world hone, perform_run_world htwo']
      exact cleanUp_echoed hassembled staging

/-- So does a build with the installation of what it has made. -/
theorem install_echoes [Interpreter] (hstandard : b.strategies ⊆ InstallStrategy.standard)
    (halike : Runner.Alike b.runner other) :
    Echoes other b.Stuck b.install (b.runningWith other).install :=
  .bind (run_echoes hstandard halike) fun artifact => (installArtifact_plain _ artifact).echoes

end Build

end ProviderKit
