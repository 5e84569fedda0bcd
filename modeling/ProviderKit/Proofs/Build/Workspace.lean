import ProviderKit.Proofs.Build.Cleanup
import ProviderKit.Proofs.Disk.Writing
import ProviderKit.Proofs.Package.Discovery

/-!
# The staging directory while it is worked in

As long as the tools that are called stay within the staging directory, so does everything else that
is done there before the archive: `Working` is the invariant, in terms of the disk that the staging
directory was made on, and every stage up to the installation keeps it, also when it fails.
-/

namespace ProviderKit

namespace Build

/-- The second disk differs from the first one only below the staging directory, which holds no link
directly and no file that has a name outside. -/
structure Confined (staging : Place) (before after : Disk) : Prop where
  elsewhere : ∀ p, ¬ (staging <+: p ∧ p ≠ staging) → after.get? p = before.get? p
  apart : ∀ p, staging <+: p → ∀ q ∈ after.sharers p, staging <+: q
  flat : ∀ name target, after.get? (staging ++ [name]) ≠ some (.link target)
  wellFormed : after.WellFormed

/-- Whether a disk is well-formed, holds no link directly in the staging directory, and has no file
that is known below the directory and outside. -/
def isTidy (staging : Place) (disk : Disk) : Bool :=
  disk.isWellFormed &&
    disk.entries.all (fun (p, entry) => !(entry.isLink && p.dropLast == staging)) &&
    disk.shared.all fun group =>
      group.all (staging.isPrefixOf ·) || group.all (!staging.isPrefixOf ·)

/-- A tool that does nothing to a tidy disk stays within the staging directory. -/
theorem confined_of_tidy {staging : Place} {disk : Disk} (h : isTidy staging disk = true) :
    Confined staging disk disk := by
  rw [isTidy, Bool.and_eq_true, Bool.and_eq_true, List.all_eq_true, List.all_eq_true] at h
  obtain ⟨⟨hwf, hflat⟩, happart⟩ := h
  refine ⟨fun _ _ => rfl, fun p hp q hq => ?_, fun name target hlink => ?_,
    Disk.wellFormed_of_check hwf⟩
  · rcases Disk.sharers_eq disk p with halone | hgroup
    · rw [halone, List.mem_singleton] at hq
      exact hq ▸ hp
    · have hself := Disk.mem_sharers_self disk p
      rcases Bool.or_eq_true_iff.1 (happart _ hgroup) with hinside | houtside
      · exact List.isPrefixOf_iff_prefix.1 (List.all_eq_true.1 hinside q hq)
      · have hnot := List.all_eq_true.1 houtside p hself
        rw [List.isPrefixOf_iff_prefix.2 hp] at hnot
        cases hnot
  · rw [Disk.get?_of_ne_root (by simp)] at hlink
    have hfine := hflat _ (Disk.mem_of_find? hlink)
    simp [Entry.isLink] at hfine

/-- The disk is the one that the staging directory was made on, but for the staging directory and
what is below it; there is no link directly in the directory, and no file below it has a name
outside. -/
structure Staged (staging : Place) (base disk : Disk) : Prop where
  elsewhere : ∀ p, ¬ staging <+: p → disk.get? p = base.get? p
  directory : disk.get? staging = some .directory
  apart : ∀ p, staging <+: p → ∀ q ∈ disk.sharers p, staging <+: q
  flat : ∀ name target, disk.get? (staging ++ [name]) ≠ some (.link target)
  wellFormed : disk.WellFormed

/-- What a tool has done that stays within the staging directory. -/
theorem Staged.confined {staging : Place} {base before after : Disk}
    (h : Staged staging base before) (hcall : Confined staging before after) :
    Staged staging base after := by
  refine ⟨fun p hp => ?_, ?_, hcall.apart, hcall.flat, hcall.wellFormed⟩
  · rw [hcall.elsewhere p fun hbelow => hp hbelow.1, h.elsewhere p hp]
  · rw [hcall.elsewhere staging (by simp), h.directory]

/-- A file that was written directly in the staging directory. -/
theorem Staged.written {staging : Place} {base before after : Disk} {name : Text}
    {content : Content} (h : Staged staging base before)
    (hwritten : Disk.Written before (staging ++ [name]) content after) :
    Staged staging base after := by
  have hinside := h.apart (staging ++ [name]) (List.prefix_append _ _)
  have hdirectory := (hwritten.extended h.wellFormed).directory h.directory
  refine ⟨fun p hp => ?_, hdirectory, fun p hp q hq => ?_, fun last target hlink => ?_,
    hwritten.wellFormed⟩
  · rw [hwritten.view p fun hmem => hp (hinside p hmem), h.elsewhere p hp]
  · rw [hwritten.sharers] at hq
    exact h.apart p hp q hq
  · by_cases hmem : staging ++ [last] ∈ before.sharers (staging ++ [name])
    · obtain ⟨mode, hfile⟩ := hwritten.shown _ hmem
      rw [hfile] at hlink
      cases hlink
    · rw [hwritten.view _ hmem] at hlink
      exact h.flat last target hlink

/-- The path of the staging directory leads to a free place on the disk that it is made on. -/
structure Site (staging : Path) (place : Place) (base : Disk) : Prop where
  wellFormed : base.WellFormed
  located : base.locate false staging = .ok place
  free : base.get? place = none

namespace Site

variable {staging : Path} {place : Place} {base disk : Disk}

/-- A staging directory is empty when it is made. -/
theorem staged (h : Site staging place base) : Staged place base (base.put place .directory) := by
  obtain ⟨parent, name, hplace, hparent⟩ := h.wellFormed.locate_parent h.located h.free
  have hnofile : ∀ p, place <+: p → base.get? p = none := by
    intro p hp
    rcases hget : base.get? p with _ | entry
    · rfl
    · exact absurd hp (h.wellFormed.not_below_of_free h.free hget)
  have hshared : ∀ p, (base.put place .directory).sharers p = base.sharers p :=
    h.wellFormed.sharers_put (by simp [h.free]) _
  refine ⟨fun p hp => ?_, ?_, fun p hp q hq => ?_, fun last target hlink => ?_, ?_⟩
  · exact Disk.get?_put_of_ne (by rintro rfl; exact hp (List.prefix_refl _)) _ _
  · exact Disk.get?_put_self (by simp [hplace]) _ _
  · rw [hshared, h.wellFormed.sharers_of_no_file (by simp [hnofile p hp]),
      List.mem_singleton] at hq
    rw [hq]
    exact hp
  · rw [Disk.get?_put_of_ne (by simp), hnofile _ (List.prefix_append _ _)] at hlink
    cases hlink
  · subst hplace
    exact h.wellFormed.put hparent h.free _

/-- What was on the disk before the staging directory is still there. -/
theorem extended (h : Site staging place base) (hstaged : Staged place base disk) :
    Disk.Extended base disk := by
  intro p entry hp
  exact ⟨entry, by
    rw [hstaged.elsewhere p (h.wellFormed.not_below_of_free h.free hp), hp], rfl⟩

/-- The path of the staging directory leads to it as long as it is a directory. -/
theorem found (h : Site staging place base) (hext : Disk.Extended base disk)
    (hdirectory : disk.get? place = some .directory) :
    disk.find false staging = .ok (place, .directory) := by
  refine Disk.find_eq_ok.2 ⟨Disk.locate_of_extended hext ?_ h.located, hdirectory⟩
  rw [hdirectory]
  rintro - _ ⟨⟩

/-- A file written under a plain name behind the path of the staging directory is written there. -/
theorem written (h : Site staging place base) (hstaged : Staged place base disk) {name : Text}
    (hplain : Disk.IsPlain (Utf8.canonical name)) {content : Content} {left : Disk}
    (hwrite : disk.write (staging.child name) content = .ok left) :
    Disk.Written disk (place ++ [Utf8.canonical name]) content left := by
  obtain ⟨at', hlocate, hwritten⟩ := Disk.write_ok hstaged.wellFormed hwrite
  have henters := Disk.enters_of_find (h.found (h.extended hstaged) hstaged.directory)
  have hat := henters.locate_child hplain (fun _ => hstaged.flat _) hlocate
  exact hat ▸ hwritten

end Site

/-! ## The stages before the archive -/

/-- The stages in the staging directory before the archive. -/
def furnish [Interpreter] (b : Build) (package : Package) (staging : Path) : Run Text := do
  if package.hasCompiledSource then stage .compile (b.compile package staging)
  let version ← stage .resolveVersion (b.stagePackage package staging)
  stage .stageFiles (b.stageFiles package staging)
  stage .installDependencies (b.installDependencies package staging)
  pure version

/-- The work in the staging directory is to furnish it, and then to pack it. -/
theorem assemble_eq [Interpreter] (b : Build) (package : Package) (staging : Path) :
    b.assemble package staging = (do
      let version ← b.furnish package staging
      let archive ← stage .archive (b.packArchive package staging)
      pure ⟨staging, archive, package.name, version⟩) := by
  unfold assemble furnish
  split <;> simp only [bind_assoc, pure_bind]

/-- The names of the lock files that are known. -/
def lockFilenames : List Text := ["package-lock.json", "yarn.lock"]

/-- The lock file of a standard strategy has a known name. -/
theorem lockFilename_of_standard {b : Build} {package : Package} {w w' : World}
    {strategy : InstallStrategy} (hstandard : b.strategies ⊆ InstallStrategy.standard)
    (h : (b.strategy package).perform w = (.ok strategy, w')) {name : Text}
    (hname : strategy.lockFilename = some name) : name ∈ lockFilenames := by
  rw [Build.strategy, Run.perform_ofExcept] at h
  obtain ⟨hselect, -⟩ := Prod.mk.inj h
  have hmem := hstandard (InstallStrategy.mem_of_select (orProblem_eq_ok.1 hselect))
  simp only [InstallStrategy.standard, List.mem_cons, List.not_mem_nil, or_false,
    Prod.mk.injEq] at hmem
  rcases hmem with ⟨-, rfl⟩ | ⟨-, rfl⟩ | ⟨-, rfl⟩
  · cases hname
    simp [lockFilenames]
  · cases hname
    simp [lockFilenames]
  · cases hname

/-- A known lock file has a plain name. -/
theorem isPlain_lockFilename {name : Text} (h : name ∈ lockFilenames) :
    Disk.IsPlain (Utf8.canonical name) := by
  refine Disk.isPlain_canonical ?_
  simp only [lockFilenames, List.mem_cons, List.not_mem_nil, or_false] at h
  rcases h with rfl | rfl <;> decide

/-- What holds while the staging directory is worked in, if the tools called since the record had a
given length have stayed within it. -/
structure Working (b : Build) (recorded : Nat) (place : Place) (base : Disk) (w : World) :
    Prop where
  longer : recorded ≤ w.calls.length
  staged : (∀ call ∈ w.calls.drop recorded,
    Confined place call.disk (b.runner call.command call.disk).2) → Staged place base w.disk

section Stages

variable {b : Build} {recorded : Nat} {staging : Path} {place : Place} {base : Disk} {α : Type}

/-- The work stays what it is where neither the disk nor the record of calls changes. -/
theorem working_of_same {run : Run α} (hdisk : ∀ w, (run.perform w).2.disk = w.disk)
    (hcalls : ∀ w, (run.perform w).2.calls = w.calls) :
    Run.Relates (Run.Kept (b.Working recorded place base)) run := by
  intro w h
  refine ⟨by rw [hcalls]; exact h.longer, fun hconfined => ?_⟩
  rw [hcalls] at hconfined
  rw [hdisk]
  exact h.staged hconfined

/-- A request that keeps the staging directory in order is part of the work. -/
theorem working_request {f : Disk → Except Disk.Fault Disk}
    (hf : ∀ disk left, Staged place base disk → f disk = .ok left → Staged place base left) :
    Run.Relates (Run.Kept (b.Working recorded place base)) (Run.request f) := by
  intro w h
  rcases hrequest : f w.disk with fault | left
  · rw [Run.perform_request_error hrequest]
    exact h
  · rw [Run.perform_request_ok hrequest]
    exact ⟨h.longer, fun hconfined => hf _ _ (h.staged hconfined) hrequest⟩

/-- A call is part of the work. -/
theorem working_call (records : Records) (command : Command) :
    Run.Relates (Run.Kept (b.Working recorded place base))
      (Run.call b.runner records command) := by
  intro w h
  rw [Run.perform_call]
  refine ⟨by simpa using Nat.le_succ_of_le h.longer, fun hconfined => ?_⟩
  dsimp only at hconfined ⊢
  rw [List.drop_append_of_le_length h.longer] at hconfined
  have hbefore := h.staged fun call hcall => hconfined call (List.mem_append_left _ hcall)
  exact hbefore.confined (hconfined ⟨command, w.disk⟩ (by simp))

/-- A stage is part of the work if its body is. -/
theorem working_stage (s : Stage) {body : Run α}
    (h : Run.Relates (Run.Kept (b.Working recorded place base)) body) :
    Run.Relates (Run.Kept (b.Working recorded place base)) (stage s body) := by
  have hR := Run.kept_lasting (b.Working recorded place base)
  unfold stage
  refine .bind hR (working_of_same (fun _ => rfl) fun _ => rfl) fun _ => ?_
  refine .bind hR h fun _ => ?_
  refine .bind hR (working_of_same (fun _ => rfl) fun _ => rfl) fun _ => ?_
  exact working_of_same (fun _ => rfl) fun _ => rfl

variable (hsite : Site staging place base)
include hsite

/-- Writing a text under a plain name in the staging directory is part of the work. -/
theorem working_writeText {name : Text} (hplain : Disk.IsPlain (Utf8.canonical name))
    (text : Text) : Run.Relates (Run.Kept (b.Working recorded place base))
      (writeText (staging.child name) text) := by
  have hwrite : ∀ content, Run.Relates (Run.Kept (b.Working recorded place base))
      (Run.request fun disk => disk.write (staging.child name) content) := fun content =>
    working_request fun disk left hstaged h => hstaged.written (hsite.written hstaged hplain h)
  unfold writeText
  refine .bind (Run.kept_lasting _) (hwrite _) fun _ => ?_
  split
  · exact hwrite _
  · exact working_of_same (fun _ => rfl) fun _ => rfl

/-- Copying a file to a plain name in the staging directory is part of the work. -/
theorem working_copy {name : Text} (hplain : Disk.IsPlain (Utf8.canonical name)) (source : Path) :
    Run.Relates (Run.Kept (b.Working recorded place base))
      (Run.request fun disk => disk.copy source (staging.child name)) := by
  refine working_request fun disk left hstaged h => ?_
  obtain ⟨content, -, hwrite⟩ := Disk.copy_ok h
  exact hstaged.written (hsite.written hstaged hplain hwrite)

/-- Putting the package file into the staging directory is part of the work. -/
theorem working_stagePackage [Interpreter] (package : Package) :
    Run.Relates (Run.Kept (b.Working recorded place base)) (b.stagePackage package staging) := by
  have hplain : Disk.IsPlain (Utf8.canonical packageFilename) :=
    Disk.isPlain_canonical (by decide)
  have hR := Run.kept_lasting (b.Working recorded place base)
  have hsame : ∀ {β : Type} (outcome : Except Failure β),
      Run.Relates (Run.Kept (b.Working recorded place base)) (Run.ofExcept outcome) :=
    fun _ => working_of_same (fun _ => rfl) fun _ => rfl
  unfold stagePackage
  split
  · exact .bind hR (working_copy hsite hplain _) fun _ => hsame _
  · refine .bind hR (hsame _) fun _ => ?_
    refine .bind hR (working_of_same (fun _ => rfl) fun _ => rfl) fun _ => ?_
    refine .bind hR (hsame _) fun _ => ?_
    refine .bind hR (working_writeText hsite hplain _) fun _ => ?_
    refine .bind hR (working_of_same (fun _ => rfl) fun _ => rfl) fun _ => ?_
    exact hsame _

/-- Putting the manifest and the lock file there is part of the work. -/
theorem working_stageFiles (hstandard : b.strategies ⊆ InstallStrategy.standard)
    (package : Package) :
    Run.Relates (Run.Kept (b.Working recorded place base)) (b.stageFiles package staging) := by
  have hR := Run.kept_lasting (b.Working recorded place base)
  have hsame : ∀ {β : Type} (outcome : Except Failure β),
      Run.Relates (Run.Kept (b.Working recorded place base)) (Run.ofExcept outcome) :=
    fun _ => working_of_same (fun _ => rfl) fun _ => rfl
  have hcopies : Run.Relates (Run.Kept (b.Working recorded place base))
      (b.stageCopies package staging) := by
    refine .bind hR (working_copy hsite (Disk.isPlain_canonical (by decide)) _) fun _ => ?_
    rcases hselect : orProblem (InstallStrategy.select b.strategies package.lockConvention) with
      e | strategy
    · intro w h
      rw [Run.perform_bind_error _ (by rw [strategy, Run.perform_ofExcept, hselect])]
      exact h
    · intro w h
      have hstrategy : (b.strategy package).perform w = (.ok strategy, w) := by
        rw [Build.strategy, Run.perform_ofExcept, hselect]
      rw [Run.perform_bind_ok _ hstrategy]
      rcases hname : strategy.lockFilename with _ | name
      · exact h
      · have hplain := isPlain_lockFilename (lockFilename_of_standard hstandard hstrategy hname)
        exact working_copy hsite hplain _ w h
  unfold stageFiles
  refine .bind hR (working_of_same (fun _ => rfl) fun _ => rfl) fun _ => ?_
  exact .ite (.bind hR (hsame _) fun _ => hcopies) hcopies

/-- Everything up to the installation is part of the work. -/
theorem working_furnish [Interpreter] (hstandard : b.strategies ⊆ InstallStrategy.standard)
    (package : Package) :
    Run.Relates (Run.Kept (b.Working recorded place base)) (b.furnish package staging) := by
  have hR := Run.kept_lasting (b.Working recorded place base)
  have hsame : ∀ {run : Run Unit}, (∀ w, (run.perform w).2.disk = w.disk) →
      (∀ w, (run.perform w).2.calls = w.calls) →
      Run.Relates (Run.Kept (b.Working recorded place base)) run := working_of_same
  have hsay : ∀ m : Message,
      Run.Relates (Run.Kept (b.Working recorded place base)) (Run.say m) :=
    fun _ => hsame (fun _ => rfl) fun _ => rfl
  have hfail : ∀ e : Failure,
      Run.Relates (Run.Kept (b.Working recorded place base)) (Run.fail e : Run Unit) :=
    fun _ => hsame (fun _ => rfl) fun _ => rfl
  have hcompile : Run.Relates (Run.Kept (b.Working recorded place base))
      (b.compile package staging) := by
    refine .bind hR (hsay _) fun _ => .bind hR (working_call _ _) fun _ => ?_
    exact .ite (hsay _) (hfail _)
  have hinstall : Run.Relates (Run.Kept (b.Working recorded place base))
      (b.installDependencies package staging) := by
    refine .bind hR (working_of_same (fun _ => rfl) fun _ => rfl) fun _ => ?_
    refine .bind hR (hsay _) fun _ => .bind hR (working_call _ _) fun _ => ?_
    exact .ite (hsay _) (hfail _)
  have hrest : Run.Relates (Run.Kept (b.Working recorded place base)) (do
      let version ← stage .resolveVersion (b.stagePackage package staging)
      stage .stageFiles (b.stageFiles package staging)
      stage .installDependencies (b.installDependencies package staging)
      pure version) := by
    refine .bind hR (working_stage _ (working_stagePackage hsite package)) fun _ => ?_
    refine .bind hR (working_stage _ (working_stageFiles hsite hstandard package)) fun _ => ?_
    refine .bind hR (working_stage _ hinstall) fun _ => ?_
    exact working_of_same (fun _ => rfl) fun _ => rfl
  unfold furnish
  exact .ite (.bind hR (working_stage _ hcompile) fun _ => hrest) hrest

end Stages

end Build

end ProviderKit
