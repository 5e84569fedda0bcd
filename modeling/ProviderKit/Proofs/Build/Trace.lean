import ProviderKit.Proofs.Build.Cleanup
import ProviderKit.Proofs.Package.Discovery

/-!
# The stages that a build records

A stage is recorded when its body is done, so the record tells how far a build came. `Completes`
follows the stages of a plan that are done one after the other, and `Log` lists what a build can
record, each time with what must have happened for it: the body that failed, at the world it was
entered with, or the result of the build. Builds that follow each other add one such log each.
Cleaning up is the last entry, unless it got stuck.
-/

namespace ProviderKit

/-- The stages of a plan are completed one after the other, and lead from one world to the next. -/
inductive Completes (body : Stage → Run Unit) : World → List Stage → World → Prop
  | nil (w : World) : Completes body w [] w
  | cons {s : Stage} {stages : List Stage} {w w' w'' : World}
      (hbody : (body s).perform (w.announced s) = (.ok (), w'))
      (hrest : Completes body (w'.recorded s) stages w'') : Completes body w (s :: stages) w''

/-- Completed stages are recorded in their order. -/
theorem Completes.completed {body : Stage → Run Unit} {w w' : World} {stages : List Stage}
    (hkeep : ∀ s, Run.Relates (Run.Same World.completed) (body s))
    (h : Completes body w stages w') : w'.completed = w.completed ++ stages := by
  induction h with
  | nil w => rw [List.append_nil]
  | @cons s stages w w' w'' hbody _ ih =>
    have hsame := hkeep s (w.announced s)
    rw [hbody] at hsame
    rw [ih, show (w'.recorded s).completed = w'.completed ++ [s] from rfl, hsame]
    simp [World.announced]

namespace Build

variable {α : Type}

/-- Completed stages depend neither on the disk nor on messages. -/
theorem sameCompleted_unaffected : Run.Unaffected (Run.Same World.completed) where
  toLasting := Run.same_lasting _
  disk _ _ := rfl
  say _ _ _ := rfl

/-- Completed stages do not depend on the calls made. -/
theorem sameCompleted_call (w : World) (call : Call) :
    Run.Same World.completed w { w with calls := w.calls ++ [call] } := rfl

/-! ## The plan of a build -/

/-- The stages in the staging directory, in their order: compiling is one of them only if there is
something to compile. -/
def plan (compiled : Bool) : List Stage :=
  (if compiled then [.compile] else []) ++
    [.resolveVersion, .stageFiles, .installDependencies, .archive]

/-- What is done in a stage of the plan. -/
def body [Interpreter] (b : Build) (package : Package) (staging : Path) : Stage → Run Unit
  | .compile => b.compile package staging
  | .resolveVersion => do let _ ← b.stagePackage package staging
  | .stageFiles => b.stageFiles package staging
  | .installDependencies => b.installDependencies package staging
  | .archive => do let _ ← b.packArchive package staging
  | .generateTypes | .discover | .prepareWorkspace | .cleanup => pure ()

/-- No stage of the plan records anything by itself. -/
theorem body_sameCompleted [Interpreter] (b : Build) (package : Package) (staging : Path)
    (s : Stage) :
    Run.Relates (Run.Same World.completed) (b.body package staging s) := by
  have hR := sameCompleted_unaffected
  cases s with
  | compile => exact compile_relates hR sameCompleted_call b package staging
  | resolveVersion =>
    exact .bind hR.toLasting (stagePackage_relates hR b package staging) fun _ => hR.pure _
  | stageFiles => exact stageFiles_relates hR b package staging
  | installDependencies => exact installDependencies_relates hR sameCompleted_call b package staging
  | archive =>
    exact .bind hR.toLasting (packArchive_relates hR b package staging) fun _ => hR.pure _
  | generateTypes | discover | prepareWorkspace | cleanup => exact hR.pure _

/-- The outcome and the world that are left by the stages of a plan: all of them are completed and
there is a result, or the first one that is not has failed with the outcome. -/
def Follows (body : Stage → Run Unit) (stages : List Stage) (w : World) :
    Except Failure α × World → Prop
  | (.ok _, w') => Completes body w stages w'
  | (.error e, w') => ∃ done s rest reached, stages = done ++ s :: rest ∧
      Completes body w done reached ∧
      (body s).perform (reached.announced s) = (.error e, w')

/-- Where the rest of a plan leads once its first stage is completed, the plan leads. -/
theorem follows_cons {body : Stage → Run Unit} {stages : List Stage} {s : Stage} {w w' : World}
    {end' : Except Failure α × World} (hbody : (body s).perform (w.announced s) = (.ok (), w'))
    (hrest : Follows body stages (w'.recorded s) end') : Follows body (s :: stages) w end' := by
  rcases end' with ⟨e | a, w''⟩
  · obtain ⟨done, t, rest, reached, rfl, hdone, hfailed⟩ := hrest
    exact ⟨s :: done, t, rest, reached, rfl, .cons hbody hdone, hfailed⟩
  · exact Completes.cons hbody hrest

/-- A stage and what comes after it follow a plan that the stage is the first of. -/
theorem follows_stage {β : Type} {body : Stage → Run Unit} {stages : List Stage} {s : Stage}
    {work : Run β} {next : β → Run α} (hbody : body s = (do let _ ← work))
    (hnext : ∀ x w, Follows body stages w ((next x).perform w)) (w : World) :
    Follows body (s :: stages) w ((stage s work >>= next).perform w) := by
  rcases hwork : work.perform (w.announced s) with ⟨e | x, w'⟩
  · rw [Run.perform_bind_error _ (perform_stage_error hwork)]
    refine ⟨[], s, stages, w, rfl, .nil w, ?_⟩
    rw [hbody, Run.perform_bind_error _ hwork]
  · rw [Run.perform_bind_ok _ (perform_stage_ok hwork)]
    refine follows_cons ?_ (hnext x _)
    rw [hbody, Run.perform_bind_ok _ hwork, Run.perform_pure]

/-- The work in the staging directory follows its plan. -/
theorem assemble_follows [Interpreter] (b : Build) (package : Package) (staging : Path)
    (w : World) :
    Follows (b.body package staging) (plan package.hasCompiledSource) w
      ((b.assemble package staging).perform w) := by
  have hrest : ∀ w, Follows (b.body package staging) (plan false) w (Run.perform (do
      let version ← stage .resolveVersion (b.stagePackage package staging)
      stage .stageFiles (b.stageFiles package staging)
      stage .installDependencies (b.installDependencies package staging)
      let archive ← stage .archive (b.packArchive package staging)
      pure (⟨staging, archive, package.name, version⟩ : Artifact)) w) := by
    refine follows_stage rfl fun version => ?_
    refine follows_stage (bind_pure _).symm fun _ => ?_
    refine follows_stage (bind_pure _).symm fun _ => ?_
    refine follows_stage rfl fun archive w => ?_
    exact .nil w
  unfold assemble
  cases hcompiled : package.hasCompiledSource with
  | true =>
    rw [if_pos rfl]
    exact follows_stage (bind_pure _).symm (fun _ => hrest) w
  | false =>
    rw [if_neg (by simp)]
    exact hrest w

/-! ## The record of a build -/

/-- The stages that are recorded once a build has its staging directory. -/
def opening : List Stage := [.generateTypes, .discover, .prepareWorkspace]

/-- The build has its staging directory, and whether there is something to compile was settled when
the package was discovered. -/
structure Prepared [Interpreter] (b : Build) (w : World) (compiled : Bool) (package : Package)
    (staging : Path) (w₁ : World) : Prop where
  prepare : b.prepare.perform w = (.ok (package, staging), w₁)
  settled : ∃ types generated,
    (stage .generateTypes (generate b.draws b.directory)).perform w = (.ok types, generated) ∧
    generated.disk.isFile? (b.directory.child Package.compilerFilename) = .ok compiled

/-- What the stages of the plan come to, with those of them that are completed. -/
inductive Work [Interpreter] (b : Build) (compiled : Bool) (package : Package) (staging : Path)
    (w₁ : World) :
    Except Failure Artifact → List Stage → Prop
  /-- A stage failed, and those before it were completed. -/
  | failed {done rest : List Stage} {s : Stage} {reached w' : World} {e : Failure}
    (hplan : plan compiled = done ++ s :: rest)
    (hdone : Completes (b.body package staging) w₁ done reached)
    (hfailed : (b.body package staging s).perform (reached.announced s) = (.error e, w')) :
    Work b compiled package staging w₁ (.error e) done
  /-- All stages were completed. -/
  | built {reached : World} {artifact : Artifact}
    (hdone : Completes (b.body package staging) w₁ (plan compiled) reached) :
    Work b compiled package staging w₁ (.ok artifact) (plan compiled)

/-- What a build records, with the outcome that comes with it. -/
inductive Log [Interpreter] (b : Build) (w : World) : Except Failure Artifact → List Stage → Prop
  /-- Generating the declarations failed. -/
  | ungenerated {e : Failure} {w' : World}
    (hgenerate : (generate b.draws b.directory).perform (w.announced .generateTypes) =
      (.error e, w')) : Log b w (.error e) []
  /-- Discovering the package failed. -/
  | undiscovered {types : Path} {generated w' : World} {e : Failure}
    (hgenerate : (stage .generateTypes (generate b.draws b.directory)).perform w =
      (.ok types, generated))
    (hdiscover : b.discover.perform (generated.announced .discover) = (.error e, w')) :
    Log b w (.error e) [.generateTypes]
  /-- No staging directory could be made. -/
  | unprepared {types : Path} {package : Package} {generated found w' : World} {e : Failure}
    (hgenerate : (stage .generateTypes (generate b.draws b.directory)).perform w =
      (.ok types, generated))
    (hdiscover : (stage .discover b.discover).perform generated = (.ok package, found))
    (hmake : b.makeStaging.perform found = (.error e, w')) :
    Log b w (.error e) [.generateTypes, .discover]
  /-- There was work in a staging directory, and the cleaning up after it was done. -/
  | cleaned {compiled : Bool} {package : Package} {staging : Path} {w₁ : World}
    {outcome : Except Failure Artifact} {done : List Stage}
    (hprepared : b.Prepared w compiled package staging w₁)
    (hwork : b.Work compiled package staging w₁ outcome done) (htidy : ¬ b.Stuck w) :
    Log b w outcome (opening ++ done ++ [.cleanup])
  /-- There was work in a staging directory, whatever it came to, and the cleaning up got stuck. -/
  | stuck {compiled : Bool} {package : Package} {staging : Path} {w₁ : World}
    {outcome : Except Failure Artifact} {done : List Stage}
    (hprepared : b.Prepared w compiled package staging w₁)
    (hwork : b.Work compiled package staging w₁ outcome done) (hstuck : b.Stuck w) :
    Log b w (.error (.disk .tooDeep)) (opening ++ done)

/-- The completed stages are the first ones of the plan. -/
theorem Work.prefix_plan [Interpreter] {b : Build} {compiled : Bool} {package : Package}
    {staging : Path} {w₁ : World} {outcome : Except Failure Artifact} {done : List Stage}
    (h : b.Work compiled package staging w₁ outcome done) : done <+: plan compiled := by
  cases h with
  | failed hplan => exact ⟨_, hplan.symm⟩
  | built => exact List.prefix_refl _

/-- Cleaning up is no stage of a plan. -/
theorem Work.cleanup_not_mem [Interpreter] {b : Build} {compiled : Bool} {package : Package}
    {staging : Path} {w₁ : World} {outcome : Except Failure Artifact} {done : List Stage}
    (h : b.Work compiled package staging w₁ outcome done) : .cleanup ∉ done := fun hmem => by
  have hplan := h.prefix_plan.subset hmem
  cases compiled <;> simp [plan] at hplan

/-- The cleaning up is recorded just where the staging directory is and it does not get stuck. -/
theorem Log.cleanup_mem_iff [Interpreter] {b : Build} {w : World}
    {outcome : Except Failure Artifact} {segment : List Stage} (h : b.Log w outcome segment) :
    .cleanup ∈ segment ↔ .prepareWorkspace ∈ segment ∧ ¬ b.Stuck w := by
  cases h with
  | ungenerated | undiscovered | unprepared => simp
  | cleaned hprepared hwork htidy => simp [opening, htidy]
  | stuck hprepared hwork hstuck => simp [opening, hstuck, hwork.cleanup_not_mem]

/-- Cleaning up that is done is recorded once. -/
theorem cleanUp_completed [Interpreter] {b : Build} {staging : Path} {w : World}
    (h : b.Tidies staging w.disk) :
    ((b.cleanUp staging).perform w).2.completed = w.completed ++ [.cleanup] := by
  have hremove : ((b.removeStaging staging).perform w).2.completed = w.completed := by
    cases hretain : b.settings.retain
    · rw [perform_removeStaging hretain]
    · rw [perform_removeStaging_retain hretain]
  rw [perform_cleanUp h, ← hremove]

/-- A stage that gives a result has recorded itself and nothing else. -/
theorem stage_completed {s : Stage} {body : Run α} {a : α} {w w₁ : World}
    (hsame : Run.Relates (Run.Same World.completed) body)
    (h : (stage s body).perform w = (.ok a, w₁)) : w₁.completed = w.completed ++ [s] := by
  obtain ⟨w', hbody, rfl⟩ := stage_ok h
  have hkeep := hsame (w.announced s)
  rw [hbody] at hkeep
  rw [show (w'.recorded s).completed = w'.completed ++ [s] from rfl, hkeep]
  rfl

/-- Preparing a build records the opening stages as far as it comes. -/
theorem prepare_log [Interpreter] (b : Build) (w : World) :
    (∃ e w', b.prepare.perform w = (.error e, w') ∧ ∃ segment,
      w'.completed = w.completed ++ segment ∧ b.Log w (.error e) segment) ∨
    (∃ package staging w₁, b.Prepared w package.hasCompiledSource package staging w₁ ∧
      w₁.completed = w.completed ++ opening) := by
  have hR := sameCompleted_unaffected
  rcases hgenerate : (stage .generateTypes (generate b.draws b.directory)).perform w with
    ⟨e | types, generated⟩
  · have hbody := stage_error hgenerate
    have hkeep := generate_relates hR b.draws b.directory (w.announced .generateTypes)
    rw [hbody] at hkeep
    refine .inl ⟨e, generated, ?_, [], ?_, .ungenerated hbody⟩
    · rw [prepare, Run.perform_bind_error _ hgenerate]
    · rw [List.append_nil, hkeep]
      rfl
  have hrecord := stage_completed (generate_relates hR _ _) hgenerate
  rcases hdiscover : (stage .discover b.discover).perform generated with ⟨e | package, found⟩
  · have hbody := stage_error hdiscover
    have hkeep := discover_relates hR b (generated.announced .discover)
    rw [hbody] at hkeep
    refine .inl ⟨e, found, ?_, [.generateTypes], ?_, .undiscovered hgenerate hbody⟩
    · rw [prepare, Run.perform_bind_ok _ hgenerate, Run.perform_bind_error _ hdiscover]
    · rw [hkeep, ← hrecord]
      rfl
  have hfound := stage_completed (discover_relates hR b) hdiscover
  rcases hmake : b.makeStaging.perform found with ⟨e | staging, made⟩
  all_goals
    have hkeep := makeStaging_relates hR b found
    rw [hmake] at hkeep
  · refine .inl ⟨e, made, ?_, [.generateTypes, .discover], ?_,
      .unprepared hgenerate hdiscover hmake⟩
    · rw [prepare, Run.perform_bind_ok _ hgenerate, Run.perform_bind_ok _ hdiscover,
        Run.perform_bind_error _ hmake]
    · rw [hkeep, hfound, hrecord, List.append_assoc]
      rfl
  · have hprepare : b.prepare.perform w = (.ok (package, staging), { made with
        completed := made.completed ++ [.prepareWorkspace]
        messages := made.messages ++ [.debug ("Staging directory: " ++ staging.text)] }) := by
      rw [prepare, Run.perform_bind_ok _ hgenerate, Run.perform_bind_ok _ hdiscover,
        Run.perform_bind_ok _ hmake, Run.perform_bind_ok _ (Run.perform_complete _ _),
        Run.perform_bind_ok _ (Run.perform_say _ _), Run.perform_pure]
    obtain ⟨hpackage, -, -⟩ := discover_ok hdiscover
    obtain ⟨-, -, -, hcompiled, -⟩ := Package.discover_ok hpackage
    refine .inr ⟨package, staging, _, ⟨hprepare, types, generated, hgenerate, hcompiled⟩, ?_⟩
    show made.completed ++ [.prepareWorkspace] = w.completed ++ opening
    rw [hkeep, hfound, hrecord, List.append_assoc, List.append_assoc]
    rfl

/-- The stages of the plan add those of them that are completed to the record, and nothing else. -/
theorem assemble_work [Interpreter] (b : Build) (package : Package) (staging : Path) (w₁ : World) :
    ∃ done, b.Work package.hasCompiledSource package staging w₁
        ((b.assemble package staging).perform w₁).1 done ∧
      ((b.assemble package staging).perform w₁).2.completed = w₁.completed ++ done := by
  have hfollows := assemble_follows b package staging w₁
  have hkeep := body_sameCompleted b package staging
  rcases hassemble : (b.assemble package staging).perform w₁ with ⟨e | artifact, w'⟩
  · rw [hassemble] at hfollows
    obtain ⟨done, s, rest, reached, hplan, hdone, hfailed⟩ := hfollows
    refine ⟨done, .failed hplan hdone hfailed, ?_⟩
    have hsame := hkeep s (reached.announced s)
    rw [hfailed] at hsame
    rw [hsame, show (reached.announced s).completed = reached.completed from rfl,
      hdone.completed hkeep]
  · rw [hassemble] at hfollows
    exact ⟨_, .built hfollows, Completes.completed hkeep hfollows⟩

/-- A build records one log, in which cleaning up comes where there was something to clean up and
that could be done. -/
theorem run_log [Interpreter] (b : Build) (w : World) : ∃ segment,
    (b.run.perform w).2.completed = w.completed ++ segment ∧
    b.Log w (b.run.perform w).1 segment ∧
    (.cleanup ∈ segment ↔ .prepareWorkspace ∈ segment ∧ ¬ b.Stuck w) := by
  suffices h : ∃ segment, (b.run.perform w).2.completed = w.completed ++ segment ∧
      b.Log w (b.run.perform w).1 segment by
    obtain ⟨segment, hcompleted, hlog⟩ := h
    exact ⟨segment, hcompleted, hlog, hlog.cleanup_mem_iff⟩
  rcases prepare_log b w with ⟨e, w', hprepare, segment, hcompleted, hlog⟩ |
    ⟨package, staging, w₁, hprepared, hcompleted⟩
  · rw [perform_run_of_error hprepare]
    exact ⟨segment, hcompleted, hlog⟩
  obtain ⟨done, hwork, hdone⟩ := assemble_work b package staging w₁
  by_cases hstuck : b.Stuck w
  · obtain ⟨-, place, entry, -, -, hrun⟩ := perform_run_deep hprepared.prepare hstuck
    rw [hrun]
    refine ⟨_, ?_, .stuck hprepared hwork hstuck⟩
    dsimp only
    rw [hdone, hcompleted, List.append_assoc]
  · have htidy := hstuck
    rw [stuck_iff hprepared.prepare, not_not] at htidy
    rw [perform_run hprepared.prepare htidy]
    refine ⟨_, ?_, .cleaned hprepared hwork hstuck⟩
    rw [cleanUp_completed htidy, hdone, hcompleted]
    simp only [List.append_assoc]

/-- Builds that follow each other. Each of them finds some disk, whatever happened since the last
one, and all of them keep one record. -/
def runInTurn [Interpreter] : List (Build × Disk) → World → World
  | [], w => w
  | (b, disk) :: turns, w => runInTurn turns (b.run.perform { w with disk }).2

/-- The segments are the logs of builds that follow each other, one for each build. -/
def LogsInTurn [Interpreter] : List (Build × Disk) → World → List (List Stage) → Prop
  | [], _, segments => segments = []
  | (b, disk) :: turns, w, segments =>
    let (outcome, w') := b.run.perform { w with disk }
    ∃ segment rest, segments = segment :: rest ∧
      b.Log { w with disk } outcome segment ∧
      (.cleanup ∈ segment ↔ .prepareWorkspace ∈ segment ∧ ¬ b.Stuck { w with disk }) ∧
      LogsInTurn turns w' rest

/-- Whatever builds follow each other, what they record is one log each, in their order: how far
the build came, with the body that failed where one did, and the cleaning up just where there was a
staging directory and that did not get stuck. A single build is a sequence of one. -/
theorem runInTurn_logs [Interpreter] (turns : List (Build × Disk)) (w : World) :
    ∃ segments, (runInTurn turns w).completed = w.completed ++ segments.flatten ∧
      LogsInTurn turns w segments := by
  induction turns generalizing w with
  | nil => exact ⟨[], (List.append_nil _).symm, rfl⟩
  | cons turn turns ih =>
    obtain ⟨b, disk⟩ := turn
    obtain ⟨segment, hcompleted, hlog, hcleanup⟩ := run_log b { w with disk }
    obtain ⟨rest, hrest, hlogs⟩ := ih (b.run.perform { w with disk }).2
    refine ⟨segment :: rest, ?_, segment, rest, rfl, hlog, hcleanup, hlogs⟩
    rw [runInTurn, hrest, hcompleted, List.flatten_cons, List.append_assoc]

/-- Cleaning up that gets stuck is not recorded, though the staging directory had been made. -/
theorem run_leaves_cleanup_out :
    .prepareWorkspace ∈ (smallDelving.run.perform smallWorld).2.completed ∧
    .cleanup ∉ (smallDelving.run.perform smallWorld).2.completed := by
  obtain ⟨w₁, problem, w₂, hprepare, -, -, -, hstuck⟩ := smallDelving_stages
  constructor
  · obtain ⟨-, place, entry, -, -, hrun⟩ := perform_run_deep hprepare hstuck
    obtain ⟨done, -, hdone⟩ := assemble_work smallDelving smallFound smallPath w₁
    obtain ⟨e, w', hfailed, -⟩ | ⟨package, staging, w', hprepared, hopening⟩ :=
      prepare_log smallDelving smallWorld
    · rw [hprepare] at hfailed
      cases hfailed
    cases hprepare.symm.trans hprepared.prepare
    rw [hrun]
    dsimp only
    rw [hdone, hopening]
    simp [opening]
  · obtain ⟨segment, hcompleted, -, hcleanup⟩ := run_log smallDelving smallWorld
    rw [hcompleted]
    exact fun h => (hcleanup.1 h).2 hstuck

end Build

end ProviderKit
