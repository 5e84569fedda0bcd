import ProviderKit.Proofs.Disk.Listing
import ProviderKit.Proofs.Disk.Placing

/-!
# Trees that are the same

Two trees, on one disk or on two, are the same if the same names lead to the same entries and the
same names share a file (`SameTree`); what the files have for second names outside does not matter.
Such trees stay the same when one file is put into both under one name (`SameTree.placed`), and they
are listed alike (`SameTree.below`).
-/

namespace ProviderKit.Disk

/-- The same names lead from the two places to the same entries, and to files that are shared by the
same names. -/
structure SameTree (disk : Disk) (place : Place) (other : Disk) (place' : Place) : Prop where
  view : ∀ x, other.get? (place' ++ x) = disk.get? (place ++ x)
  sharers : ∀ x y, place' ++ y ∈ other.sharers (place' ++ x) ↔
    place ++ y ∈ disk.sharers (place ++ x)

/-- The paths lead to directories of the two disks with the same trees. -/
def SameDirectory (disk : Disk) (path : Path) (other : Disk) (path' : Path) : Prop :=
  ∃ place place', disk.find true path = .ok (place, .directory) ∧
    other.find true path' = .ok (place', .directory) ∧ SameTree disk place other place'

/-- The trees that the paths lead to are the same. -/
theorem SameDirectory.tree {disk other : Disk} {path path' : Path} {place place' : Place}
    (h : SameDirectory disk path other path')
    (hfind : disk.find true path = .ok (place, .directory))
    (hfind' : other.find true path' = .ok (place', .directory)) :
    SameTree disk place other place' := by
  obtain ⟨p, p', hp, hp', htree⟩ := h
  rw [hfind] at hp
  rw [hfind'] at hp'
  cases hp
  cases hp'
  exact htree

namespace SameTree

variable {disk other third left left' : Disk} {place place' place'' : Place}

/-- Sameness goes both ways. -/
theorem symm (h : SameTree disk place other place') : SameTree other place' disk place :=
  ⟨fun x => (h.view x).symm, fun x y => (h.sharers x y).symm⟩

/-- Sameness is passed on. -/
theorem trans (h : SameTree disk place other place') (h' : SameTree other place' third place'') :
    SameTree disk place third place'' :=
  ⟨fun x => (h'.view x).trans (h.view x), fun x y => (h'.sharers x y).trans (h.sharers x y)⟩

/-- Directories with nothing in them are the same. -/
theorem of_empty (hwf : disk.WellFormed) (hwf' : other.WellFormed)
    (hdirectory : disk.get? place = some .directory)
    (hdirectory' : other.get? place' = some .directory)
    (hempty : ∀ p, place <+: p → p ≠ place → disk.get? p = none)
    (hempty' : ∀ p, place' <+: p → p ≠ place' → other.get? p = none) :
    SameTree disk place other place' := by
  -- In such a tree only the empty path leads to something.
  have hview : ∀ {disk : Disk} {place}, disk.get? place = some .directory →
      (∀ p, place <+: p → p ≠ place → disk.get? p = none) → ∀ x,
      disk.get? (place ++ x) = if x = [] then some .directory else none := by
    intro disk place hdirectory hempty x
    split
    next hx => rw [hx, List.append_nil, hdirectory]
    next hx => exact hempty _ (List.prefix_append _ _) (by simpa using hx)
  -- Only files have second names, so what is not there shares nothing.
  have halone : ∀ {disk : Disk} {place}, disk.WellFormed →
      (∀ x, disk.get? (place ++ x) = if x = [] then some .directory else none) → ∀ x,
      disk.sharers (place ++ x) = [place ++ x] := by
    intro disk place hwf hview x
    refine hwf.sharers_of_no_file fun mode content => ?_
    rw [hview]
    split <;> simp
  have hview₁ := hview hdirectory hempty
  have hview₂ := hview hdirectory' hempty'
  refine ⟨fun x => (hview₂ x).trans (hview₁ x).symm, fun x y => ?_⟩
  rw [halone hwf hview₁, halone hwf' hview₂, List.mem_singleton, List.mem_singleton,
    List.append_cancel_left_eq, List.append_cancel_left_eq]

/-- Trees stay the same when one file is put into both under one name: if it is new in the one it is
new in the other, and else it keeps the same permissions. -/
theorem placed (h : SameTree disk place other place') {x : Place} {content : Content}
    (hplaced : Placed (place ++ x) content disk left)
    (hplaced' : Placed (place' ++ x) content other left') : SameTree left place left' place' := by
  refine ⟨fun y => ?_, fun y z => ?_⟩
  · by_cases hy : y = x
    · subst hy
      obtain ⟨mode, hfile⟩ := hplaced.file
      obtain ⟨mode', hfile'⟩ := hplaced'.file
      have hkept := hplaced.kept
      have hkept' := hplaced'.kept
      simp only [modeAt, hfile] at hkept
      simp only [modeAt, hfile', h.view] at hkept'
      rw [hfile, hfile', hkept, hkept']
    · rw [hplaced.view _ (by simpa using hy), hplaced'.view _ (by simpa using hy), h.view]
  · rw [hplaced.sharers, hplaced'.sharers, h.sharers]

/-- The same trees are listed alike: the order of places leaves no choice. -/
theorem below (h : SameTree disk place other place') (horderly : disk.Orderly)
    (horderly' : other.Orderly) : other.below place' = disk.below place := by
  have hperm : (other.below place').Perm (disk.below place) := by
    refine (List.perm_ext_iff_of_nodup (horderly'.nodup_below place').of_map
      (horderly.nodup_below place).of_map).2 fun ⟨x, entry⟩ => ?_
    rw [horderly'.mem_below, horderly.mem_below, h.view]
  refine hperm.eq_of_pairwise ?_ (pairwise_below other place') (pairwise_below disk place)
  rintro ⟨x, entry⟩ ⟨y, entry'⟩ ha hb hle hle'
  obtain rfl : x = y := placeLe_antisymm hle hle'
  rw [horderly.mem_below] at hb
  rw [horderly'.mem_below, h.view, hb.2] at ha
  rw [Option.some.inj ha.2]

end SameTree

/-! ## Trees of texts -/

/-- Whether two lists of entries are the same, as far as files hold bytes. -/
def isSameListing : List (Place × Entry) → List (Place × Entry) → Bool
  | [], [] => true
  | (x, .directory) :: rest, (y, .directory) :: rest' => x == y && isSameListing rest rest'
  | (x, .link s) :: rest, (y, .link t) :: rest' => x == y && s == t && isSameListing rest rest'
  | (x, .file a (.bytes s)) :: rest, (y, .file b (.bytes t)) :: rest' =>
    x == y && a == b && s == t && isSameListing rest rest'
  | _, _ => false

/-- Lists that pass the check are one. -/
theorem eq_of_isSameListing {entries entries' : List (Place × Entry)}
    (h : isSameListing entries entries' = true) : entries = entries' := by
  fun_induction isSameListing entries entries' <;> simp_all

/-- Whether the paths lead to directories with the same trees, on sound disks without second
names. -/
def isSameDirectory (disk : Disk) (path : Path) (other : Disk) (path' : Path) : Bool :=
  match disk.find true path, other.find true path' with
  | .ok (place, .directory), .ok (place', .directory) =>
    disk.isSound && other.isSound && disk.shared.isEmpty && other.shared.isEmpty &&
      isSameListing (disk.below place) (other.below place')
  | _, _ => false

/-- Directories that pass the check are the same. -/
theorem sameDirectory_of_check {disk other : Disk} {path path' : Path}
    (h : isSameDirectory disk path other path' = true) :
    SameDirectory disk path other path' := by
  unfold isSameDirectory at h
  split at h
  next place place' hfind hfind' =>
    simp only [Bool.and_eq_true, List.isEmpty_iff] at h
    obtain ⟨⟨⟨⟨hsound, hsound'⟩, hshared⟩, hshared'⟩, hlisting⟩ := h
    refine ⟨place, place', hfind, hfind', fun x => ?_, fun x y => ?_⟩
    · -- The listing does not hold the directory itself.
      by_cases hx : x = []
      · rw [hx, List.append_nil, List.append_nil, (find_eq_ok.1 hfind).2, (find_eq_ok.1 hfind').2]
      · refine Option.ext fun entry => ?_
        have hmem : (x, entry) ∈ disk.below place ↔ _ := (sound_of_check hsound).mem_below
        have hmem' : (x, entry) ∈ other.below place' ↔ _ := (sound_of_check hsound').mem_below
        rw [eq_of_isSameListing hlisting, hmem'] at hmem
        simpa [hx] using hmem
    · simp [sharers, hshared, hshared']
  next => cases h

end ProviderKit.Disk
