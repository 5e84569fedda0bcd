import ProviderKit.Proofs.Build.Version

/-!
# What keeping the staging directory changes

Two runs of one build in one world that differ in nothing but whether the staging directory is kept.
Until they clean up they are one and the same run, so they have the same outcome, calls and record
(`run_retaining`), unless there is more in the directory than can be removed. What the cleaning up
does then is all the difference: a last message, and what is at the staging directory and below it.
An archive that was written there, through a link that a tool has left, goes with the directory
(`run_retaining_loses_archive`).
-/

namespace ProviderKit

open Disk (Extended)

/-- The path leads to a place outside the tree, and the way there does not go through the tree. -/
def Disk.LeadsPast (disk : Disk) (path : Path) (place : Place) : Prop :=
  ∀ target, disk.locate true path = .ok target →
    (disk.eraseTree place).locate true path = .ok target ∧ ¬ place <+: target

namespace Build

variable {b : Build} {w : World} {package : Package} {staging : Path}

/-- The build with the staging directory kept, or not. -/
def retaining (b : Build) (retain : Bool) : Build :=
  { b with settings := { b.settings with retain } }

/-- What differs between two worlds, the first one with the staging directory kept and the second
one without. -/
structure Retention [Interpreter] (staging : Path) (kept swept : World) : Prop where
  /-- The messages are the same up to the last one: the directory is said to be kept, or it is not
  there any more, or there is a warning since it could not be removed. -/
  messages : ∃ said,
    kept.messages = said ++ [.info ("Retained build directory " ++ staging.text)] ∧
    (swept.messages = said ∧
        swept.disk.find false staging = .error (.refused .missing staging) ∨
      ∃ fault, (kept.disk.removeTree staging).1 = .error fault ∧
        swept.messages = said ++ [.warning (removalWarning staging fault)])
  /-- Outside the directory that the path of the staging directory leads to, if it still leads to
  one, the disks are the same. -/
  elsewhere : ∀ p, (∀ place, kept.disk.find false staging = .ok (place, .directory) →
    ¬ place <+: p) → swept.disk.get? p = kept.disk.get? p
  /-- A file whose path does not lead there has the same content. -/
  content : ∀ path content, kept.disk.read path = .ok content →
    (∀ place, kept.disk.find false staging = .ok (place, .directory) →
      kept.disk.LeadsPast path place) → swept.disk.read path = .ok content

/-- The path of a staging directory leads to no root. -/
theorem ne_root_of_find {disk : Disk} {place : Place} {entry : Entry} {names : List Text}
    {name : Text} (hnames : Disk.readNames staging = names ++ [name]) (hplain : Disk.IsPlain name)
    (hfind : disk.find false staging = .ok (place, entry)) : place ≠ [] := by
  have hwalk := (Disk.walk_of_locate (Disk.find_eq_ok.1 hfind).1).2
  rw [hnames] at hwalk
  obtain ⟨parent, rfl, -⟩ := Disk.walk_append_plain hplain hwalk
  exact List.append_ne_nil_of_right_ne_nil _ (List.cons_ne_nil _ _)

/-- Nothing is removed where the path leads to no directory. -/
theorem removeTree_of_no_directory [Interpreter] {disk : Disk}
    (h : ∀ place, disk.find false staging ≠ .ok (place, .directory)) :
    (disk.removeTree staging).2 = disk := by
  rcases hfind : disk.find false staging with fault | ⟨place, entry⟩
  · rw [Disk.removeTree, hfind]
  cases entry with
  | directory => exact absurd hfind (h place)
  | file mode content => rw [Disk.removeTree, hfind]
  | link target =>
    rw [Disk.removeTree, hfind]
    dsimp only
    split <;> rfl

/-- Removing a tree changes nothing outside the directory that its path leads to. -/
theorem removeTree_same [Interpreter] {disk : Disk} {p : Place}
    (h : ∀ place, disk.find false staging = .ok (place, .directory) → ¬ place <+: p) :
    (disk.removeTree staging).2.get? p = disk.get? p := by
  by_cases hthere : ∃ place, disk.find false staging = .ok (place, .directory)
  · obtain ⟨place, hfind⟩ := hthere
    exact Disk.removeTree_elsewhere (Disk.enters_of_find hfind) (h place hfind)
  · rw [removeTree_of_no_directory fun place hfind => hthere ⟨place, hfind⟩]

/-- What cleaning up leaves differs in what keeping the staging directory changes. -/
theorem retention_of_cleanUp [Interpreter] {kept swept : Build}
    (hkept : kept.settings.retain = true) (hswept : swept.settings.retain = false)
    {names : List Text} {name : Text} (hnames : Disk.readNames staging = names ++ [name])
    (hplain : Disk.IsPlain name) (htidy : swept.Tidies staging w.disk) :
    Retention staging ((kept.cleanUp staging).perform w).2
      ((swept.cleanUp staging).perform w).2 := by
  rw [perform_cleanUp (.inl hkept), perform_cleanUp htidy, perform_removeStaging_retain hkept,
    perform_removeStaging hswept]
  refine ⟨⟨w.messages, rfl, ?_⟩, fun p hp => removeTree_same hp, fun path content hread hpast => ?_⟩
  · rcases hremove : w.disk.removeTree staging with ⟨fault | ⟨⟩, left⟩
    · have hreported := htidy.resolve_left (by simp [hswept]) fault (by rw [hremove])
      refine .inr ⟨fault, rfl, ?_⟩
      dsimp only [removalWarnings]
      rw [if_pos hreported]
    · exact .inl ⟨List.append_nil _, Disk.find_of_removeTree hnames hplain hremove⟩
  · -- A file behind a path that leads past the tree is not removed, and neither is the way to it.
    obtain ⟨target, mode, hfound⟩ := Disk.read_eq_ok.1 hread
    obtain ⟨hlocate, hfile⟩ := Disk.find_eq_ok.1 hfound
    dsimp only at hfile hpast hlocate ⊢
    by_cases hthere : ∃ place, w.disk.find false staging = .ok (place, .directory)
    · obtain ⟨place, hfind⟩ := hthere
      have helsewhere : ∀ p, ¬ place <+: p →
          (w.disk.removeTree staging).2.get? p = w.disk.get? p := fun p hp =>
        Disk.removeTree_elsewhere (Disk.enters_of_find hfind) hp
      obtain ⟨hpath, hoff⟩ := hpast place hfind target hlocate
      have hroot := ne_root_of_find hnames hplain hfind
      have hself : Extended w.disk w.disk := fun _ entry h => ⟨entry, h, rfl⟩
      have hshown : (w.disk.removeTree staging).2.get? target =
          some (.file mode content) := by
        rw [helsewhere target hoff, hfile]
      exact read_of_extended hpath (extended_of_elsewhere hroot hself helsewhere) hshown
    · rw [removeTree_of_no_directory fun place hfind => hthere ⟨place, hfind⟩]
      exact hread

/-- Keeping the staging directory changes nothing else. Two runs that differ in it make the same
calls. Unless removing the directory gets stuck they have the same outcome and record the same
stages. If there is no staging directory they leave the same world; else their worlds are the same
but for the last message, and for what is in the staging directory. -/
theorem run_retaining [Interpreter] (b : Build) (w : World) :
    let kept := (b.retaining true).run.perform w
    let swept := (b.retaining false).run.perform w
    kept.2.calls = swept.2.calls ∧
    (¬ (b.retaining false).Stuck w →
      kept.1 = swept.1 ∧ kept.2.completed = swept.2.completed ∧
      ((∃ e, b.prepare.perform w = (.error e, kept.2) ∧ kept.2 = swept.2) ∨
        ∃ package staging w₁, b.prepare.perform w = (.ok (package, staging), w₁) ∧
          Retention staging kept.2 swept.2)) := by
  intro kept swept
  -- Nothing before the cleaning up looks at the setting.
  have hprepares : ∀ retain, (b.retaining retain).prepare = b.prepare := fun _ => rfl
  have hassembles : ∀ retain package staging,
      (b.retaining retain).assemble package staging = b.assemble package staging :=
    fun _ _ _ => rfl
  rcases hprepare : b.prepare.perform w with ⟨e | ⟨package, staging⟩, w₁⟩
  · have hends : ∀ retain, (b.retaining retain).run.perform w = (.error e, w₁) := fun retain =>
      perform_run_of_error (by rw [hprepares, hprepare])
    have hkept : kept = (.error e, w₁) := hends true
    have hswept : swept = (.error e, w₁) := hends false
    rw [hkept, hswept]
    exact ⟨rfl, fun _ => ⟨rfl, rfl, .inl ⟨e, rfl, rfl⟩⟩⟩
  have hprepared : ∀ retain,
      (b.retaining retain).prepare.perform w = (.ok (package, staging), w₁) := fun retain => by
    rw [hprepares, hprepare]
  have hworlds : ∀ retain, ((b.retaining retain).run.perform w).2.calls =
      ((b.assemble package staging).perform w₁).2.calls := by
    intro retain
    rw [perform_run_world (hprepared retain), cleanUp_calls, hassembles]
  refine ⟨(hworlds true).trans (hworlds false).symm, fun hstuck => ?_⟩
  have htidy := hstuck
  rw [stuck_iff (hprepared false), not_not, hassembles] at htidy
  have hends : ∀ retain, ¬ (b.retaining retain).Stuck w → (b.retaining retain).run.perform w =
      (((b.assemble package staging).perform w₁).1, (((b.retaining retain).cleanUp staging).perform
        ((b.assemble package staging).perform w₁).2).2) := by
    intro retain hnot
    rw [perform_run_tidy (hprepared retain) hnot, hassembles]
  have hkept : kept = _ := hends true fun ⟨_, _, _, _, hretain, _⟩ => nomatch hretain
  have hswept : swept = _ := hends false hstuck
  obtain ⟨-, names, name, hnames, hplain⟩ := prepared_path hprepare
  rw [hkept, hswept]
  refine ⟨rfl, ?_, .inr ⟨package, staging, _, rfl,
    retention_of_cleanUp rfl rfl hnames hplain htidy⟩⟩
  rw [perform_cleanUp (.inl rfl), perform_cleanUp htidy,
    perform_removeStaging_retain (b := b.retaining true) rfl,
    perform_removeStaging (b := b.retaining false) rfl]

/-! ## An archive in the staging directory -/

/-- A build of the small project whose package manager puts a link to the directory that it works
in, which is the staging directory, in the place of the directory for archives. -/
def redirecting : Build :=
  { small with
    runner := fun command disk =>
      (.ok ⟨0, []⟩, disk.put [Text.ofString "p", distName] (.link command.directory.text)) }

/-- Whether a build loses its archive with the staging directory: the artifact is the same whether
the directory is kept or not, and the archive is there only if it is kept. -/
def losesArchive [Interpreter] (b : Build) (w : World) : Bool :=
  match (b.retaining true).run.perform w, (b.retaining false).run.perform w with
  | (.ok artifact, kept), (.ok same, swept) =>
    artifact = same && (kept.disk.read artifact.archive).isOk &&
      match swept.disk.read artifact.archive with
      | .error fault => fault = .refused .missing artifact.archive
      | .ok _ => false
  | _, _ => false

/-- A build that passes the check loses its archive. -/
theorem lost_of_check [Interpreter] {b : Build} {w : World} (h : b.losesArchive w = true) :
    ∃ artifact content,
      ((b.retaining true).run.perform w).1 = .ok artifact ∧
      ((b.retaining false).run.perform w).1 = .ok artifact ∧
      ((b.retaining true).run.perform w).2.disk.read artifact.archive = .ok content ∧
      ((b.retaining false).run.perform w).2.disk.read artifact.archive =
        .error (.refused .missing artifact.archive) := by
  unfold losesArchive at h
  split at h
  next artifact kept same swept hkept hswept =>
    simp only [Bool.and_eq_true, decide_eq_true_eq] at h
    obtain ⟨⟨rfl, hok⟩, hmissing⟩ := h
    rw [hkept, hswept]
    rcases hread : kept.disk.read artifact.archive with fault | content
    · rw [hread] at hok
      cases hok
    refine ⟨artifact, content, rfl, rfl, hread, ?_⟩
    split at hmissing
    next fault hfault =>
      rw [of_decide_eq_true hmissing] at hfault
      exact hfault
    next => cases hmissing
  next => cases h

/-- The archive is where the artifact says that it is if the staging directory is kept, and is not
there if the directory is not kept. -/
theorem run_retaining_loses_archive : ∃ artifact content,
    ((redirecting.retaining true).run.perform smallWorld).1 = .ok artifact ∧
    ((redirecting.retaining false).run.perform smallWorld).1 = .ok artifact ∧
    ((redirecting.retaining true).run.perform smallWorld).2.disk.read artifact.archive =
      .ok content ∧
    ((redirecting.retaining false).run.perform smallWorld).2.disk.read artifact.archive =
      .error (.refused .missing artifact.archive) := by
  refine lost_of_check ?_
  rewrite [losesArchive]
  decide +kernel

end Build

end ProviderKit
