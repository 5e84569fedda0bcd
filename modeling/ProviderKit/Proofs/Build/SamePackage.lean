import ProviderKit.Proofs.Build.StagedFiles
import ProviderKit.Proofs.Disk.Skirting

/-!
# Projects that are the same in what is packaged

Of a project a build packages the package file, the manifest and the lock file that counts, and it
goes by whether there is something to compile. Projects on two disks can be the same in that
(`Package.Same`), and they are so on other disks where the paths of these files lead to the same
(`Package.Same.congr`).
-/

namespace ProviderKit

/-- The paths lead to files with one content. -/
def Disk.SameContent (disk : Disk) (path : Path) (other : Disk) (path' : Path) : Prop :=
  ∃ content, disk.read path = .ok content ∧ other.read path' = .ok content

/-- A path that leads to the same file on other disks leads to the same content. -/
theorem Disk.SameContent.congr {disk other left left' : Disk} {path path' : Path}
    (h : disk.SameContent path other path') (hfind : left.find true path = disk.find true path)
    (hfind' : left'.find true path' = other.find true path') :
    left.SameContent path left' path' := by
  obtain ⟨content, hread, hread'⟩ := h
  exact ⟨content, (Disk.read_congr hfind).trans hread, (Disk.read_congr hfind').trans hread'⟩

/-- Whether two paths lead to files with the same bytes. -/
def Disk.isSameContent (disk : Disk) (path : Path) (other : Disk) (path' : Path) : Bool :=
  match disk.read path, other.read path' with
  | .ok (.bytes s), .ok (.bytes t) => s == t
  | _, _ => false

/-- Files that pass the check have the same content. -/
theorem Disk.sameContent_of_check {disk other : Disk} {path path' : Path}
    (h : isSameContent disk path other path' = true) : disk.SameContent path other path' := by
  unfold isSameContent at h
  split at h
  next s t hread hread' =>
    rw [beq_iff_eq] at h
    subst h
    exact ⟨_, hread, hread'⟩
  next => cases h

namespace Package

open Build (lockFilenames lockFilenames_subset projectFilenames)

variable {disk other left left' : Disk} {directory directory' : Path}

/-- The projects in the two directories are the same in what is packaged: the package file, the
manifest, whether there is something to compile, how dependencies are locked, and the lock file that
counts. -/
structure Same (disk : Disk) (directory : Path) (other : Disk) (directory' : Path) : Prop where
  package : disk.SameContent (directory.child packageFilename) other
    (directory'.child packageFilename)
  manifest : disk.SameContent (directory.child manifestFilename) other
    (directory'.child manifestFilename)
  source : ∃ found, disk.isFile? (directory.child compilerFilename) = .ok found ∧
    other.isFile? (directory'.child compilerFilename) = .ok found
  lock : ∃ convention, lockConvention? disk directory = .ok convention ∧
    lockConvention? other directory' = .ok convention ∧
    ∀ name, convention.filename? = some name →
      disk.SameContent (directory.child name) other (directory'.child name)

/-- The files that say what is packaged, and whether there is something to compile. -/
def filenames : List Text := compilerFilename :: projectFilenames

/-- The lock convention depends on where the paths of the lock files lead. -/
theorem lockConvention?_congr (h : ∀ name ∈ filenames,
    left.find true (directory.child name) = disk.find true (directory.child name)) :
    lockConvention? left directory = lockConvention? disk directory := by
  have hlock : ∀ name ∈ lockFilenames,
      left.isFile? (directory.child name) = disk.isFile? (directory.child name) := fun name hname =>
    Disk.isFile?_congr (h name (List.mem_cons_of_mem _ (lockFilenames_subset hname)))
  have hconsolidated := hlock "package-lock.json" (by simp [lockFilenames])
  have hdistributed := hlock "yarn.lock" (by simp [lockFilenames])
  unfold lockConvention?
  simp only [LockConvention.filename?, Option.getD_some, hconsolidated, hdistributed]

/-- Projects whose paths lead to the same as those of others are the same if these are. -/
theorem Same.congr (h : Same disk directory other directory')
    (hfind : ∀ name ∈ filenames,
      left.find true (directory.child name) = disk.find true (directory.child name))
    (hfind' : ∀ name ∈ filenames,
      left'.find true (directory'.child name) = other.find true (directory'.child name)) :
    Same left directory left' directory' := by
  have hcontent : ∀ {name : Text}, name ∈ projectFilenames →
      disk.SameContent (directory.child name) other (directory'.child name) →
      left.SameContent (directory.child name) left' (directory'.child name) := fun hname hsame =>
    hsame.congr (hfind _ (List.mem_cons_of_mem _ hname)) (hfind' _ (List.mem_cons_of_mem _ hname))
  refine ⟨hcontent (by simp [projectFilenames]) h.package,
    hcontent (by simp [projectFilenames]) h.manifest, ?_, ?_⟩
  · obtain ⟨found, hfound, hfound'⟩ := h.source
    exact ⟨found, (Disk.isFile?_congr (hfind _ List.mem_cons_self)).trans hfound,
      (Disk.isFile?_congr (hfind' _ List.mem_cons_self)).trans hfound'⟩
  · obtain ⟨convention, hconvention, hconvention', hlock⟩ := h.lock
    refine ⟨convention, (lockConvention?_congr hfind).trans hconvention,
      (lockConvention?_congr hfind').trans hconvention', fun name hname => ?_⟩
    refine hcontent ?_ (hlock name hname)
    -- Whichever lock file counts, it is one of the files whose paths lead to the same.
    cases convention with
    | none => cases hname
    | consolidated =>
      cases hname
      simp [projectFilenames]
    | distributed =>
      cases hname
      simp [projectFilenames]

/-- The lock file of the strategy for a convention is the one of the convention. -/
theorem lockFilename_of_select {convention : LockConvention} {strategy : InstallStrategy}
    (h : InstallStrategy.select InstallStrategy.standard convention = .ok strategy) :
    strategy.lockFilename = convention.filename? := by
  cases convention <;> cases h <;> rfl

/-- Whether two projects are the same in what is packaged. -/
def isSame (disk : Disk) (directory : Path) (other : Disk) (directory' : Path) : Bool :=
  disk.isSameContent (directory.child packageFilename) other (directory'.child packageFilename) &&
    disk.isSameContent (directory.child manifestFilename) other
      (directory'.child manifestFilename) &&
    (match disk.isFile? (directory.child compilerFilename),
        other.isFile? (directory'.child compilerFilename) with
      | .ok found, .ok found' => found == found'
      | _, _ => false) &&
    (match lockConvention? disk directory, lockConvention? other directory' with
      | .ok convention, .ok convention' => convention == convention' &&
        convention.filename?.all fun name =>
          disk.isSameContent (directory.child name) other (directory'.child name)
      | _, _ => false)

/-- Projects that pass the check are the same in what is packaged. -/
theorem same_of_check (h : isSame disk directory other directory' = true) :
    Same disk directory other directory' := by
  simp only [isSame, Bool.and_eq_true] at h
  obtain ⟨⟨⟨hpackage, hmanifest⟩, hsource⟩, hlock⟩ := h
  refine ⟨Disk.sameContent_of_check hpackage, Disk.sameContent_of_check hmanifest, ?_, ?_⟩
  · split at hsource
    next found found' hfound hfound' =>
      rw [beq_iff_eq] at hsource
      subst hsource
      exact ⟨_, hfound, hfound'⟩
    next => cases hsource
  · split at hlock
    next convention convention' hconvention hconvention' =>
      rw [Bool.and_eq_true, beq_iff_eq] at hlock
      obtain ⟨rfl, hlock⟩ := hlock
      refine ⟨_, hconvention, hconvention', fun name hname => ?_⟩
      rw [hname, Option.all_some] at hlock
      exact Disk.sameContent_of_check hlock
    next => cases hlock

end Package

end ProviderKit
