import ProviderKit.Proofs.Build.Handover
import ProviderKit.Proofs.Release.Grammar

/-!
# Rejected releases

A build that is given a reference which names no version does not get past its second stage in the
staging directory: what the compiler has left there is what is cleaned up, without a package file
from the build, and the package manager is never called. `version_grammar` states this together with
the grammar that decides which references are rejected.
-/

namespace ProviderKit

namespace Build

variable {b : Build} {package : Package} {staging : Path} {reference : Text} {p : Problem}
  {w w₁ : World}

/-- The stage of the package file ends with the rejection, and does nothing before. -/
theorem stagePackage_rejected [Interpreter] (href : b.settings.releaseReference = some reference)
    (hversion : Release.version reference = .error p) (package : Package) (staging : Path)
    (w : World) : (stage .resolveVersion (b.stagePackage package staging)).perform w =
      (.error (.problem p), w.announced .resolveVersion) := by
  have hbody : (b.stagePackage package staging).perform (w.announced .resolveVersion) =
      (.error (.problem p), w.announced .resolveVersion) := by
    unfold stagePackage
    rw [href]
    refine Run.perform_bind_error _ ?_
    rw [Run.perform_ofExcept, hversion]
    rfl
  exact perform_stage_error hbody

/-- The work in the staging directory of a build whose release is rejected: it fails, all that it
has done to the disk and all that it has called is the compiler, and unless the compiler failed the
problem is the one of the reference. -/
structure Stops [Interpreter] (b : Build) (package : Package) (staging : Path) (p : Problem)
    (w : World) (e : Failure) (left : World) : Prop where
  work : (b.assemble package staging).perform w = (.error e, left)
  disk : left.disk = b.compiled package staging w.disk
  calls : left.calls = w.calls ++ b.compilerCalls package staging w.disk
  reason : e = .problem p ∨ (package.hasCompiledSource = true ∧
    ((b.compile package staging).perform (w.announced .compile)).1 = .error e)

/-- The work in the staging directory stops at the reference, at the latest. -/
theorem assemble_stops [Interpreter] (href : b.settings.releaseReference = some reference)
    (hversion : Release.version reference = .error p) (package : Package) (staging : Path)
    (w : World) : ∃ e left, b.Stops package staging p w e left := by
  have hrejected := stagePackage_rejected href hversion package staging
  rcases hsource : package.hasCompiledSource with _ | _
  · refine ⟨.problem p, w.announced .resolveVersion, ?_, ?_, ?_, .inl rfl⟩
    · rw [assemble, hsource, if_neg Bool.false_ne_true]
      exact Run.perform_bind_error _ (hrejected w)
    · rw [compiled, hsource, if_neg Bool.false_ne_true]
      rfl
    · rw [compilerCalls, hsource, if_neg Bool.false_ne_true, List.append_nil]
      rfl
  obtain ⟨hcalls, hdisk⟩ := compileStage_left b package staging w
  have hcalled : w.calls ++ b.compilerCalls package staging w.disk =
      w.calls ++ [⟨b.compiler package staging, w.disk⟩] := by
    rw [compilerCalls, hsource, if_pos rfl]
  have hcompiled : b.compiled package staging w.disk =
      (b.runner (b.compiler package staging) w.disk).2 := by
    rw [compiled, hsource, if_pos rfl]
  rcases hcompile : (stage .compile (b.compile package staging)).perform w with ⟨e | _, left⟩
  all_goals
    rw [hcompile] at hcalls hdisk
    dsimp only at hcalls hdisk
  · refine ⟨e, left, ?_, hdisk.trans hcompiled.symm, hcalls.trans hcalled.symm, .inr ⟨hsource, ?_⟩⟩
    · rw [assemble, hsource, if_pos rfl]
      exact Run.perform_bind_error _ hcompile
    · rw [stage_error hcompile]
  · refine ⟨.problem p, left.announced .resolveVersion, ?_, hdisk.trans hcompiled.symm,
      hcalls.trans hcalled.symm, .inl rfl⟩
    rw [assemble, hsource, if_pos rfl]
    exact (Run.perform_bind_ok _ hcompile).trans (Run.perform_bind_error _ (hrejected left))

/-- What a build does whose release is rejected: it calls nothing and gets no staging directory, or
it has that directory, empty when the work began, then as the compiler left it, and then cleaned
up. -/
inductive Rejects [Interpreter] (b : Build) (w : World) (p : Problem) : Prop
  /-- There never was a staging directory. -/
  | unprepared {e : Failure} {w₁ : World}
    (prepare : b.prepare.perform w = (.error e, w₁))
    (calls : (b.run.perform w).2.calls = w.calls)
  /-- The work in the staging directory stops. -/
  | stopped {package : Package} {staging : Path} {place : Place} {w₁ left : World} {e : Failure}
    (opened : b.Opened w package staging place w₁)
    (stops : b.Stops package staging p w₁ e left)
    (cleaned : (b.run.perform w).2 = ((b.cleanUp staging).perform left).2)
    (calls : (b.run.perform w).2.calls = w.calls ++ b.compilerCalls package staging w₁.disk)

/-- A build whose reference is rejected does no more than that. -/
theorem run_rejects [Interpreter] (hwf : w.disk.WellFormed)
    (href : b.settings.releaseReference = some reference)
    (hversion : Release.version reference = .error p) : b.Rejects w p := by
  have hprepared := prepare_relates sameCalls_unaffected (fun _ _ => rfl) b w
  rcases hprepare : b.prepare.perform w with ⟨e | ⟨package, staging⟩, w₁⟩
  · rw [hprepare] at hprepared
    refine .unprepared hprepare ?_
    rw [perform_run_of_error hprepare]
    exact hprepared
  obtain ⟨place, hopened, -, -, hcalls⟩ := opened_of_prepare hwf hprepare
  obtain ⟨e, left, hstops⟩ := assemble_stops href hversion package staging w₁
  have hcleaned : (b.run.perform w).2 = ((b.cleanUp staging).perform left).2 := by
    rw [perform_run_world hprepare, hstops.work]
  refine .stopped hopened hstops hcleaned ?_
  rw [hcleaned, cleanUp_calls, hstops.calls, hcalls]

end Build

namespace Release

/-- A reference is a version with `v` or `refs/tags/v` in front of it, a version being three runs of
ASCII digits with single dots between them, and then it gives this version. Any other text is
rejected, and the message ends with the text, or with what is behind `refs/tags/` if it begins so.
A build that is given such a text never puts a package file into its staging directory, and calls
nothing but the compiler. -/
theorem version_grammar [Interpreter] (reference : Text) :
    (∀ v, version reference = .ok v ↔ Names reference v) ∧
    ((∀ v, ¬ Names reference v) → ∃ p tag, version reference = .error p ∧
      IsTagOf tag reference ∧ p.report.category = .versionTag ∧
      p.message = "Invalid version tag: " ++ tag ∧
      ∀ (b : Build) (w : World), b.settings.releaseReference = some reference →
        w.disk.WellFormed → b.Rejects w p) := by
  refine ⟨fun v => version_eq_ok_iff, fun hno => ?_⟩
  have hrejected : version reference = .error (.badVersionTag (tagOf reference)) :=
    version_eq_error_iff.2 ⟨hno, tagOf reference, isTagOf_tagOf reference, rfl⟩
  refine ⟨_, tagOf reference, hrejected, isTagOf_tagOf reference, rfl, rfl, ?_⟩
  intro b w href hwf
  exact Build.run_rejects hwf href hrejected

/-- A build of the small project that is given a tag with two numbers. -/
def unnumbered : Build :=
  { Build.small with
    settings := { Build.small.settings with releaseReference := some "v1.2" } }

/-- A full reference gives its version, and the tag with two numbers stops the build. -/
theorem version_grammar_unnumbered : version "refs/tags/v2.0.1" = .ok "2.0.1" ∧
    unnumbered.Rejects Build.smallWorld (.badVersionTag "v1.2") := by
  have hversion : version "v1.2" = .error (.badVersionTag "v1.2") := rfl
  have hnumbered : IsNumbered "2.0.1" := isVersion_iff.1 rfl
  have hno : ∀ v, ¬ Names "v1.2" v := by
    intro v hv
    rw [version_eq_ok_iff.2 hv] at hversion
    cases hversion
  refine ⟨((version_grammar _).1 _).2 ⟨hnumbered, .inr rfl⟩, ?_⟩
  obtain ⟨p, tag, hrejected, -, -, -, hbuild⟩ := (version_grammar "v1.2").2 hno
  rw [hversion] at hrejected
  cases hrejected
  have hwf : Build.smallWorld.disk.isWellFormed = true := by decide +kernel
  exact hbuild unnumbered Build.smallWorld rfl (Disk.wellFormed_of_check hwf)

end Release

end ProviderKit
