import ProviderKit.Proofs.Disk.Confinement
import ProviderKit.Proofs.Disk.Writing

/-!
# Disks as a machine keeps them

What a request brings to a disk is a file or a directory, under a name that a disk takes and in a
directory that is there. So the disk is still as a machine keeps it (`Regular.of_new`): when a file
has been written, and when a tree has gone.
-/

namespace ProviderKit.Disk

variable {disk left : Disk} (h : disk.Regular)
include h

/-- A disk is still as a machine keeps it when what has come to it are files and directories, under
names that a disk takes in what was there. -/
theorem Regular.of_new (hsound : left.Sound)
    (hview : ∀ p entry, left.get? p = some entry → disk.get? p = some entry ∨
      entry.isLink = false ∧ (disk.get? p = none →
        ∃ parent last, p = parent ++ [last] ∧ disk.get? parent ≠ none ∧ IsName last)) :
    left.Regular := by
  refine ⟨hsound, fun p entry hp name hname => ?_, fun p target hp => ?_⟩
  · have hold : ∀ p, disk.get? p ≠ none → ∀ name ∈ p, IsName name := by
      intro p hp
      obtain ⟨old, hold⟩ := Option.ne_none_iff_exists'.1 hp
      exact h.names p old hold
    by_cases htaken : disk.get? p = none
    · rcases hview p entry hp with hsame | ⟨-, hnew⟩
      · rw [htaken] at hsame
        cases hsame
      · obtain ⟨parent, last, rfl, hparent, hlast⟩ := hnew htaken
        rcases List.mem_append.1 hname with habove | hin
        · exact hold parent hparent name habove
        · exact List.mem_singleton.1 hin ▸ hlast
    · exact hold p htaken name hname
  · rcases hview p _ hp with hsame | ⟨hnot, -⟩
    · exact h.targets p target hsame
    · cases hnot

/-- A child of a path leads to a free place only under a name that a disk takes. -/
theorem Regular.new_child {path : Path} {name : Text} (hsome : name ≠ [])
    (hslashless : .char '/' ∉ name) {through : Bool} {q : Place}
    (hlocate : disk.locate through (path.child name) = .ok q) (hfree : disk.get? q = none) :
    ∃ parent last, q = parent ++ [last] ∧ disk.get? parent ≠ none ∧ IsName last := by
  obtain ⟨place, henters⟩ := enters_of_child hlocate
  obtain ⟨hgivable, hwalk⟩ := walk_of_locate hlocate
  obtain ⟨links, hgoes⟩ := henters.goes
  rw [readNames_child, hgoes _ _ (List.cons_ne_nil _ _)] at hwalk
  have hpart : IsPart (Utf8.canonical name) :=
    isPart_canonical (usable_of_isGivable hgivable name (by simp [Path.child])) hsome hslashless
  obtain ⟨parent, last, hq, hparent, hlast⟩ := isName_of_walk h.toWellFormed h.targets
    (by simpa using hpart) henters.directory hwalk hfree
  exact ⟨parent, last, hq, by simp [hparent], hlast⟩

/-- A disk is still as a machine keeps it when a file has been written. -/
theorem Regular.written {place : Place} {content : Content} (hsound : left.Sound)
    (hwritten : Written disk place content left)
    (hnew : disk.get? place = none →
      ∃ parent last, place = parent ++ [last] ∧ disk.get? parent ≠ none ∧ IsName last) :
    left.Regular := by
  refine h.of_new hsound fun p entry hp => ?_
  by_cases hmem : p ∈ disk.sharers place
  · obtain ⟨mode, hfile⟩ := hwritten.shown p hmem
    rw [hfile] at hp
    obtain rfl := Option.some.inj hp
    refine .inr ⟨rfl, fun hfree => ?_⟩
    rcases hwritten.vacant with hvacant | ⟨x, old, hold⟩
    · rw [h.toWellFormed.sharers_of_no_file (by simp [hvacant]), List.mem_singleton] at hmem
      exact hmem ▸ hnew hvacant
    · obtain ⟨x', c, hshared⟩ := h.toWellFormed.file_of_sharers hold hmem
      rw [hfree] at hshared
      cases hshared
  · exact .inl (hwritten.view p hmem ▸ hp)

/-- A disk is still as a machine keeps it when a tree has gone. -/
theorem Regular.eraseTree (place : Place) : (disk.eraseTree place).Regular := by
  refine h.of_new (h.toSound.eraseTree place) fun p entry hp => .inl ?_
  by_cases hroot : p = []
  · rw [hroot, get?_root] at hp ⊢
    exact hp
  rw [Disk.eraseTree, get?_keep hroot] at hp
  split at hp
  · exact hp
  · cases hp

end ProviderKit.Disk
