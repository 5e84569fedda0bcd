import ProviderKit.Disk.AtomicWrite
import ProviderKit.Proofs.Disk.Listing
import ProviderKit.Proofs.Text.Utf8

/-!
# Making and removing a directory

A fresh directory stands where nothing stood, under the path it was asked for. A directory that has
been removed with everything in it is not found any more (`find_of_removeTree`). Where it cannot be
removed the disk says so by a reason of its own, never by a complaint about the path, which has been
good enough to make the directory; or an entry is too many levels below it (`removeTree_error`).
-/

namespace ProviderKit.Disk

/-! ## Names -/

/-- A name of more than two bytes is still a plain one as the disk reads it. -/
theorem isPlain_canonical {name : Text} (h : 2 < Utf8.losslessSize name) :
    IsPlain (Utf8.canonical name) := by
  have hbytes := Utf8.encodeLossless_canonical name
  unfold Utf8.losslessSize at h
  rw [← hbytes] at h
  constructor
  all_goals
    intro heq
    rw [heq] at h
    exact absurd h (by decide)

/-- The bytes of a text with a given beginning. -/
theorem losslessSize_append (s t : Text) :
    Utf8.losslessSize (s ++ t) = Utf8.losslessSize s + Utf8.losslessSize t := by
  rw [Utf8.losslessSize, Utf8.encodeLossless_append, List.length_append]
  rfl

/-- The names that a disk reads in a path with one name more. -/
theorem readNames_child (path : Path) (name : Text) :
    readNames (path.child name) = readNames path ++ [Utf8.canonical name] := by
  simp [readNames, Path.child]

/-! ## Making a directory -/

/-- A directory is made at the free place that its path leads to. -/
theorem makeDirectory_ok {disk made : Disk} {path : Path} (h : disk.makeDirectory path = .ok made) :
    ∃ place, disk.locate false path = .ok place ∧ disk.get? place = none ∧
      made = disk.put place .directory := by
  unfold makeDirectory at h
  rcases hlocate : disk.locate false path with fault | place
  · rw [hlocate] at h
    cases h
  · rw [hlocate] at h
    simp only [bind, Except.bind] at h
    rcases hget : disk.get? place with _ | entry
    · rw [hget] at h
      cases h
      exact ⟨place, rfl, hget, rfl⟩
    · rw [hget] at h
      cases h

/-- A directory that has come to the free place that a path leads to is found under the path. -/
theorem find_put_directory {disk : Disk} {path : Path} {place : Place}
    (hlocate : disk.locate false path = .ok place) (hfree : disk.get? place = none) :
    (disk.put place .directory).find false path = .ok (place, .directory) := by
  have hne : place ≠ [] := by
    rintro rfl
    rw [get?_root] at hfree
    cases hfree
  have hself := get?_put_self hne disk .directory
  refine find_eq_ok.2 ⟨locate_of_extended (extended_put hfree _) ?_ hlocate, hself⟩
  rw [hself]
  rintro - _ ⟨⟩

/-- A drawn path is a child of the directory that leads to a free place. -/
theorem freePath_some {disk : Disk} {directory path : Path} {start finish : Text}
    {draws : List Text} (h : disk.freePath directory start finish draws = .ok (some path)) :
    ∃ draw ∈ draws, path = directory.child (start ++ draw ++ finish) ∧
      ∃ place, disk.locate false path = .ok place ∧ disk.get? place = none := by
  induction draws with
  | nil => cases h
  | cons draw draws ih =>
    unfold freePath at h
    dsimp only at h
    rcases hlocate : disk.locate false (directory.child (start ++ draw ++ finish)) with
      fault | place
    · rw [hlocate] at h
      cases h
    · rw [hlocate] at h
      simp only [bind, Except.bind] at h
      rcases hget : disk.get? place with _ | entry
      · rw [hget] at h
        cases h
        exact ⟨draw, List.mem_cons_self, rfl, place, hlocate, hget⟩
      · rw [hget] at h
        obtain ⟨other, hmem, hrest⟩ := ih h
        exact ⟨other, List.mem_cons_of_mem _ hmem, hrest⟩

/-- A temporary path is a child of the directory, taken lexically, that leads to a free place. -/
theorem temporaryPath_ok {disk : Disk} {directory path : Path} {start finish : Text}
    {draws : List Text} (h : disk.temporaryPath directory start finish draws = .ok path) :
    ∃ draw ∈ draws, path = (⟨directory.root, Path.collapse directory.names⟩ : Path).child
        (start ++ draw ++ finish) ∧
      ∃ place, disk.locate false path = .ok place ∧ disk.get? place = none := by
  unfold temporaryPath at h
  dsimp only at h
  rcases hfree : disk.freePath ⟨directory.root, Path.collapse directory.names⟩ start finish draws
    with fault | found
  · rw [hfree] at h
    cases h
  · rw [hfree] at h
    rcases found with _ | found
    · cases h
    · cases h
      exact freePath_some hfree

/-! ## Removing a directory -/

/-- An empty directory that is removed stood at the end of its path. -/
theorem removeDirectory_ok {disk left : Disk} {path : Path}
    (h : disk.removeDirectory path = .ok left) :
    ∃ place, disk.find false path = .ok (place, .directory) ∧ disk.names place = [] ∧
      left = disk.erase place := by
  unfold removeDirectory at h
  rcases hfind : disk.find false path with fault | ⟨place, entry⟩
  · rw [hfind] at h
    cases h
  rw [hfind] at h
  simp only [bind, Except.bind] at h
  cases entry with
  | file => cases h
  | link => cases h
  | directory =>
    simp only [Entry.isDirectory, Bool.not_true, Bool.false_eq_true, if_false] at h
    split at h
    · cases h
    split at h
    · cases h
    next hempty =>
      cases h
      rw [Bool.not_eq_true', Bool.not_eq_false, List.isEmpty_iff] at hempty
      exact ⟨place, rfl, hempty, rfl⟩

/-- A directory that cannot be removed is refused for a numbered reason. -/
theorem removeDirectory_error {disk : Disk} {path : Path} {fault : Fault}
    (hgivable : IsGivable path) (h : disk.removeDirectory path = .error fault) :
    ∃ reason, fault = .refused reason path := by
  unfold removeDirectory at h
  rcases hfind : disk.find false path with other | ⟨place, entry⟩
  · rw [hfind] at h
    cases h
    exact find_error hgivable hfind
  rw [hfind] at h
  simp only [bind, Except.bind] at h
  split at h
  · cases h
    exact ⟨_, rfl⟩
  split at h
  · cases h
    exact ⟨_, rfl⟩
  split at h
  · cases h
    exact ⟨_, rfl⟩
  · cases h

section Tree

variable [Interpreter]

/-- A directory with an entry too many levels below it loses what comes before that entry. -/
theorem removeTree_of_deeper {disk : Disk} {path : Path} {place entry : Place}
    (hfind : disk.find false path = .ok (place, .directory))
    (hdeeper : disk.deeper? Interpreter.removing place = some entry) :
    disk.removeTree path = (.error .tooDeep, disk.eraseUpTo place entry) := by
  rw [removeTree, hfind]
  dsimp only
  rw [hdeeper]

/-- A shallow directory is emptied and removed. -/
theorem removeTree_of_shallow {disk : Disk} {path : Path} {place : Place}
    (hfind : disk.find false path = .ok (place, .directory))
    (hshallow : disk.Shallow Interpreter.removing place) :
    disk.removeTree path = match (disk.eraseBelow place).removeDirectory path with
      | .ok disk => (.ok (), disk)
      | .error fault => (.error fault, disk.eraseBelow place) := by
  rw [removeTree, hfind]
  dsimp only
  split
  next heq => cases (deeper?_eq_none.2 hshallow).symm.trans heq
  next => rfl

/-- A tree that is removed stood at the end of its path, and was not too deep; what was below it
goes first, and the directory is then removed under the same path. -/
theorem removeTree_ok {disk left : Disk} {path : Path} (h : disk.removeTree path = (.ok (), left)) :
    ∃ place, disk.find false path = .ok (place, .directory) ∧
      disk.Shallow Interpreter.removing place ∧
      (disk.eraseBelow place).removeDirectory path = .ok left := by
  unfold removeTree at h
  split at h
  · cases h
  · cases h
  · split at h <;> cases h
  next place hfind =>
    split at h
    · cases h
    next hshallow =>
      refine ⟨place, hfind, deeper?_eq_none.1 hshallow, ?_⟩
      dsimp only at h
      split at h
      next heq => cases h; exact heq
      next => cases h

/-- A tree that cannot be removed is too deep, or the disk refuses; it does not complain about the
path's text. -/
theorem removeTree_error {disk left : Disk} {path : Path} {fault : Fault}
    (hgivable : IsGivable path) (h : disk.removeTree path = (.error fault, left)) :
    fault.isReported = true ∨ fault = .tooDeep ∧ ∃ place entry,
      disk.find false path = .ok (place, .directory) ∧
      disk.deeper? Interpreter.removing place = some entry ∧ left = disk.eraseUpTo place entry := by
  unfold removeTree at h
  split at h
  next heq =>
    cases h
    obtain ⟨reason, rfl⟩ := find_error hgivable heq
    exact .inl rfl
  next =>
    cases h
    exact .inl rfl
  next =>
    split at h
    next heq =>
      cases h
      obtain ⟨reason, rfl⟩ := find_error hgivable heq
      exact .inl rfl
    next =>
      cases h
      exact .inl rfl
  next place hfind =>
    split at h
    next entry hdeeper =>
      cases h
      exact .inr ⟨rfl, place, entry, hfind, hdeeper, rfl⟩
    next =>
      dsimp only at h
      split at h
      next => cases h
      next heq =>
        cases h
        obtain ⟨reason, rfl⟩ := removeDirectory_error hgivable heq
        exact .inl rfl

/-- A tree is too deep just if an entry is too many levels below the directory at the end of its
path. -/
theorem removeTree_tooDeep_iff {disk : Disk} {path : Path} (hgivable : IsGivable path) :
    (disk.removeTree path).1 = .error .tooDeep ↔
      ∃ place, disk.find false path = .ok (place, .directory) ∧
        ¬ disk.Shallow Interpreter.removing place := by
  constructor
  · intro h
    have hremove : disk.removeTree path = (.error .tooDeep, (disk.removeTree path).2) :=
      Prod.ext h rfl
    obtain hreported | ⟨-, place, entry, hfind, hdeeper, -⟩ := removeTree_error hgivable hremove
    · cases hreported
    · refine ⟨place, hfind, fun hshallow => ?_⟩
      rw [deeper?_eq_none.2 hshallow] at hdeeper
      cases hdeeper
  · rintro ⟨place, hfind, hdeep⟩
    obtain ⟨entry, hdeeper⟩ := Option.ne_none_iff_exists'.1 fun hnone =>
      hdeep (deeper?_eq_none.1 hnone)
    rw [removeTree_of_deeper hfind hdeeper]

/-- A tree that has been removed is not found any more under its path. -/
theorem find_of_removeTree {disk left : Disk} {path : Path} {names : List Text} {name : Text}
    (hnames : readNames path = names ++ [name]) (hplain : IsPlain name)
    (h : disk.removeTree path = (.ok (), left)) :
    left.find false path = .error (.refused .missing path) := by
  obtain ⟨place, -, -, hremove⟩ := removeTree_ok h
  obtain ⟨last, hfind, -, rfl⟩ := removeDirectory_ok hremove
  obtain ⟨hlocate, -⟩ := find_eq_ok.1 hfind
  obtain ⟨hgivable, hwalk⟩ := walk_of_locate hlocate
  have hne : last ≠ [] := by
    rw [hnames] at hwalk
    obtain ⟨parent, rfl, -⟩ := walk_append_plain hplain hwalk
    simp
  have hgone := get?_erase_self hne (disk.eraseBelow place)
  rcases walk_of_vanished (fun p hp => get?_erase_of_ne hp (disk.eraseBelow place)) hgone hwalk
    with hstill | hmissing
  · exact find_of_free (locate_of_walk hgivable hstill) hgone
  · have hrefused := locate_eq hgivable ((disk.eraseBelow place).erase last) false
    rw [hmissing] at hrefused
    exact find_of_locate_error hrefused

/-- Removing a directory that has been made at a free place leaves everything but the directory and
what is below it, whatever has come to the disk since. -/
theorem removeTree_view {base disk : Disk} {path : Path} {place : Place} (hwf : base.WellFormed)
    (hfree : base.get? place = none) (hlocate : base.locate false path = .ok place)
    (hext : Extended base disk) (hdirectory : disk.get? place = some .directory) {p : Place}
    (hp : ¬ place <+: p) : (disk.removeTree path).2.get? p = disk.get? p := by
  have hne : place ≠ [] := by
    rintro rfl
    rw [get?_root] at hfree
    cases hfree
  have hend : base.get? place = none → ∀ target, disk.get? place ≠ some (.link target) := by
    rw [hdirectory]
    rintro - _ ⟨⟩
  have hfind : disk.find false path = .ok (place, .directory) :=
    find_eq_ok.2 ⟨locate_of_extended hext hend hlocate, hdirectory⟩
  have hstays : (disk.eraseBelow place).get? place = some .directory := by
    rw [get?_eraseBelow_of_not_below (by simp), hdirectory]
  have hext' : Extended base (disk.eraseBelow place) := by
    intro q entry hq
    have hnot := hwf.not_below_of_free hfree hq
    obtain ⟨entry', hentry', hseen⟩ := hext q entry hq
    exact ⟨entry', by rw [get?_eraseBelow_of_not_below (fun h => hnot h.1), hentry'], hseen⟩
  have hend' : base.get? place = none →
      ∀ target, (disk.eraseBelow place).get? place ≠ some (.link target) := by
    rw [hstays]
    rintro - _ ⟨⟩
  have hlocate' := locate_of_extended hext' hend' hlocate
  have hview : (disk.eraseBelow place).get? p = disk.get? p :=
    get?_eraseBelow_of_not_below (fun h => hp h.1) disk
  rcases hdeeper : disk.deeper? Interpreter.removing place with _ | entry
  · rw [removeTree_of_shallow hfind (deeper?_eq_none.1 hdeeper)]
    split
    next left hremove =>
      obtain ⟨last, hlast, -, rfl⟩ := removeDirectory_ok hremove
      rw [(find_eq_ok.1 hlast).1] at hlocate'
      cases hlocate'
      rw [get?_erase_of_ne, hview]
      rintro rfl
      exact hp (List.prefix_refl _)
    next => exact hview
  · rw [removeTree_of_deeper hfind hdeeper]
    exact get?_eraseUpTo_of_not_below hp disk entry

end Tree

/-! ## Directories one within the other -/

/-- The place some directories below another. -/
def down (place : Place) (n : Nat) : Place := place ++ List.replicate n (Text.ofString "d")

/-- Directories below a place, each but the first within another of them. -/
def nest (place : Place) : Nat → Disk → Disk
  | 0, disk => disk
  | n + 1, disk => (nest place n disk).put (down place (n + 1)) .directory

/-- Places that are not as far down differ. -/
theorem down_injective {place : Place} {n k : Nat} (h : down place n = down place k) : n = k := by
  simpa [down] using congrArg List.length h

/-- Nested directories change nothing elsewhere. -/
theorem get?_nest {place q : Place} {n : Nat} (disk : Disk)
    (h : ∀ k < n, q ≠ down place (k + 1)) : (nest place n disk).get? q = disk.get? q := by
  induction n with
  | zero => rfl
  | succ n ih =>
    rw [nest, get?_put_of_ne (h n (by omega)), ih fun k hk => h k (by omega)]

/-- Nested directories leave all that is there, if a directory has nothing but entries of its own
and the first of them is not one of these. -/
theorem extended_nest {place : Place} {disk : Disk} (hshallow : disk.Shallow 1 place)
    (hfree : disk.get? (down place 1) = none) (n : Nat) : Extended disk (nest place n disk) := by
  induction n with
  | zero => exact fun _ entry h => ⟨entry, h, rfl⟩
  | succ n ih =>
    refine ih.trans (extended_put ?_ _)
    rw [get?_nest disk fun k hk h => absurd (down_injective h) (by omega)]
    cases n with
    | zero => exact hfree
    | succ n =>
      rcases hget : disk.get? (down place (n + 2)) with _ | entry
      · rfl
      · have := hshallow _ _ hget
        simp at this

/-- Nested directories are as many levels below the directory as there are of them. -/
theorem not_shallow_nest (place : Place) (n : Nat) (disk : Disk) :
    ¬ (nest place (n + 1) disk).Shallow n place := by
  intro h
  have := h (List.replicate (n + 1) (Text.ofString "d")) .directory
    (get?_put_self (by simp [down]) _ _)
  rw [List.length_replicate] at this
  omega

end ProviderKit.Disk
