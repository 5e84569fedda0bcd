import ProviderKit.Disk.TextFile
import ProviderKit.Proofs.Disk.Replacing

/-!
# Paths that keep clear of a place

A path skirts a place if it leads to the same, whatever stands there (`Skirts`). So does every path
that is followed from directory to directory without coming by the place (`Straight.skirts`). What
is read through such a path does not change when the place does.
-/

namespace ProviderKit.Disk

/-- The path leads to the same, whatever stands at the place. -/
def Skirts (disk : Disk) (place : Place) (path : Path) : Prop :=
  ∀ other : Disk, (∀ q, q ≠ place → other.get? q = disk.get? q) →
    other.find true path = disk.find true path

variable {disk other : Disk} {path : Path}

/-- A path that keeps clear of a place leads into the same directory, whatever stands there. -/
theorem Skirts.enters {types place : Place} (h : Skirts disk types path)
    (hview : ∀ q, q ≠ types → other.get? q = disk.get? q) (hgivable : IsGivable path)
    (henters : Enters disk path place) : Enters other path place := by
  rw [enters_iff_find hgivable] at henters ⊢
  exact (h other hview).trans henters

/-- Names that are followed from directory to directory, without a dot or a link, lead to their own
place. -/
theorem followNames_straight {expand : Place → List Text → Except Reason Place} {names : List Text}
    {here : Place} (hplain : ∀ name ∈ names, IsPlain name ∧ Utf8.losslessSize name ≤ nameLimit)
    (habove : ∀ n < names.length, disk.get? (here ++ names.take n) = some .directory)
    (hend : ∀ target, disk.get? (here ++ names) ≠ some (.link target)) :
    followNames disk true expand here names = .ok (here ++ names) := by
  induction names generalizing here with
  | nil => rw [followNames_nil, List.append_nil]
  | cons name rest ih =>
    obtain ⟨hname, hrest⟩ := List.forall_mem_cons.1 hplain
    have hhere : disk.get? here = some .directory := by simpa using habove 0 (by simp)
    rw [followNames_plain hhere hname.1 hname.2]
    rw [List.append_cons here name rest] at hend ⊢
    -- The last name may name nothing, or anything but a link; the others name directories.
    cases rest with
    | nil =>
      rw [List.append_nil] at hend ⊢
      rcases hget : disk.get? (here ++ [name]) with _ | _ | _ | target
      · rfl
      · exact followNames_nil _
      · exact followNames_nil _
      · exact absurd hget (hend target)
    | cons next rest =>
      have hnext : disk.get? (here ++ [name]) = some .directory := by
        simpa using habove 1 (by simp)
      rw [hnext]
      refine ih hrest (fun n hn => ?_) hend
      have hbelow := habove (n + 1) (by simpa using hn)
      rwa [List.take_succ_cons, List.append_cons] at hbelow

/-- The names of the path are followed from directory to directory, without a dot or a link. -/
structure Straight (disk : Disk) (path : Path) : Prop where
  plain : ∀ name ∈ readNames path, IsPlain name ∧ Utf8.losslessSize name ≤ nameLimit
  above : ∀ n < (readNames path).length, disk.get? ((readNames path).take n) = some .directory
  ends : ∀ target, disk.get? (readNames path) ≠ some (.link target)

/-- Whether the names of a path are followed from directory to directory. -/
def isStraight (disk : Disk) (path : Path) : Bool :=
  ((readNames path).all fun name => name != Text.ofString "." && name != Text.ofString ".." &&
    decide (Utf8.losslessSize name ≤ nameLimit)) &&
  ((List.range (readNames path).length).all fun n =>
    (disk.get? ((readNames path).take n)).any Entry.isDirectory) &&
  !(disk.get? (readNames path)).any Entry.isLink

/-- A path that passes the check is straight. -/
theorem straight_of_check (h : disk.isStraight path = true) : Straight disk path := by
  simp only [isStraight, Bool.and_eq_true, List.all_eq_true, bne_iff_ne, decide_eq_true_eq,
    List.mem_range, Bool.not_eq_true'] at h
  obtain ⟨⟨hplain, habove⟩, hend⟩ := h
  refine ⟨fun name hname => ?_, fun n hn => ?_, fun target hlink => ?_⟩
  · obtain ⟨⟨hdot, hup⟩, hshort⟩ := hplain name hname
    exact ⟨⟨hdot, hup⟩, hshort⟩
  · obtain ⟨entry, hget, hentry⟩ := (Option.any_eq_true _ _).1 (habove n hn)
    cases entry with
    | directory => exact hget
    | _ => cases hentry
  · rw [hlink] at hend
    cases hend

/-- A straight path leads to the place of its names. -/
theorem Straight.arrives (h : Straight disk path) :
    walk disk true linkLimit [] (readNames path) = .ok (readNames path) := by
  rw [walk_eq]
  exact followNames_straight h.plain h.above h.ends

/-- A straight path keeps clear of every place that is not on its way. -/
theorem Straight.skirts (h : Straight disk path) {place : Place}
    (hoff : ¬ place <+: readNames path) : disk.Skirts place path := by
  intro other hview
  -- All that stands on the way is as it was, so that the path is straight on the other disk too.
  have hsame : ∀ n, other.get? ((readNames path).take n) = disk.get? ((readNames path).take n) :=
    fun n => hview _ fun heq => hoff (heq ▸ List.take_prefix n _)
  have hlast : other.get? (readNames path) = disk.get? (readNames path) := by
    simpa using hsame (readNames path).length
  have hother : Straight other path :=
    ⟨h.plain, fun n hn => (hsame n).trans (h.above n hn), fun target => hlast ▸ h.ends target⟩
  have hlocate : other.locate true path = disk.locate true path := by
    unfold locate
    rw [← readNames, h.arrives, hother.arrives]
  unfold find
  rw [hlocate]
  -- What is looked up at the end is what stands at the last place of the way.
  rcases hplace : disk.locate true path with fault | p
  · rfl
  · have hp := (walk_of_locate hplace).2
    rw [h.arrives] at hp
    cases hp
    simp only [bind, Except.bind, hlast]

/-- Whether a path leads to a file depends on what it leads to. -/
theorem isFile?_congr (h : other.find true path = disk.find true path) :
    other.isFile? path = disk.isFile? path := by
  unfold isFile? test
  rw [h]

/-- The content of a file depends on what its path leads to. -/
theorem read_congr (h : other.find true path = disk.find true path) :
    other.read path = disk.read path := by
  unfold read
  rw [h]

/-- The text of a file depends on what its path leads to. -/
theorem readText_congr (h : other.find true path = disk.find true path) :
    other.readText path = disk.readText path := by
  unfold readText
  rw [read_congr h]

end ProviderKit.Disk
