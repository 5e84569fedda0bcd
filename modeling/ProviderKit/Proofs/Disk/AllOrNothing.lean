import ProviderKit.Proofs.Disk.Placing
import ProviderKit.Proofs.Disk.Replacing

/-!
# All or nothing

Writing a text to a file as a whole first makes the directories above the target that are missing.
From there on it is all or nothing (`writeAtomically_all_or_nothing`), whatever step the device
fails at: either the text is at the target, in a file of its own that everyone may read and its
owner may write, and nothing else has changed; or nothing has, if the device lets go of the
temporary file. So what stood at the target stands there still when the request fails, unless the
target is one of the directories that were made above it (`writeAtomically_makes_target`).
-/

namespace ProviderKit.Disk

section Writing

variable [Interpreter] {disk made left : Disk} {path : Path} {place : Place}

/-- Where the path of a target led somewhere, no directory above it is missing. -/
theorem makeDirectories_of_locate {through : Bool} (h : disk.locate through path = .ok place) :
    (disk.makeDirectories true path.parent).2 = disk := by
  rcases List.eq_nil_or_concat path.names with hnil | ⟨names, name, hnames⟩
  · have hroot : Enters disk path.parent [] := by
      refine ⟨?_, get?_root disk⟩
      rw [readNames, Path.parent, hnil, List.dropLast_nil, List.map_nil, walk_eq, followNames_nil]
    exact makeDirectories_of_enters hroot true
  · have hpath : path = (⟨path.root, names⟩ : Path).child name := by
      rw [Path.child, ← List.concat_eq_append, ← hnames]
    rw [hpath] at h ⊢
    obtain ⟨parent, henters⟩ := enters_of_child h
    rw [Path.parent_child]
    exact makeDirectories_of_enters henters true

omit [Interpreter] in
/-- A file that has come to where no link was is read under the path that led there. -/
theorem read_of_replaced {bytes : Bytes} (hlocate : made.locate false path = .ok place)
    (hvacant : made.get? place ≠ some .directory)
    (hlink : ∀ target, made.get? place ≠ some (.link target))
    (hview : ∀ q, left.get? q = if q = place then some (.file .usual (.bytes bytes))
      else made.get? q) : left.read path = .ok (.bytes bytes) := by
  have hself : left.get? place = some (.file .usual (.bytes bytes)) := by rw [hview, if_pos rfl]
  have hext : Extended made left := by
    intro q entry hq
    by_cases hat : q = place
    · subst hat
      refine ⟨_, hself, ?_⟩
      cases entry with
      | directory => exact absurd hq hvacant
      | link target => exact absurd hq (hlink target)
      | file mode content => rfl
    · exact ⟨entry, by rw [hview, if_neg hat, hq], rfl⟩
  obtain ⟨hgivable, hwalk⟩ := walk_of_locate (locate_kept hext hlocate)
  have hthrough : left.locate true path = .ok place := by
    refine locate_of_walk hgivable (walk_through ?_ hwalk)
    rw [hself]
    rintro _ ⟨⟩
  rw [read, find_eq_ok.2 ⟨hthrough, hself⟩]
  rfl

/-- The second disk is the first one with a text in place of what was at the target. -/
structure Replaced (disk : Disk) (path : Path) (text : Text) (place : Place) (bytes : Bytes)
    (left : Disk) : Prop where
  encoded : Utf8.encode? text = some bytes
  located : disk.locate false path = .ok place
  above : disk.isDirectory? path.parent = .ok true
  view : ∀ q, left.get? q = if q = place then some (.file .usual (.bytes bytes)) else disk.get? q
  /-- Where a link was, the path may have led through it. -/
  reads : (∀ link, disk.get? place ≠ some (.link link)) → left.read path = .ok (.bytes bytes)

end Writing

/-! ## A small disk -/

/-- A directory with a file that can be executed and a link to it. -/
def shelf : Disk where
  entries :=
    [([Text.ofString "p"], .directory),
     ([Text.ofString "p", Text.ofString "f"], .file .runnable (.bytes [])),
     ([Text.ofString "p", Text.ofString "l"], .link "f")]

/-- A text as it is written to a target on the small disk, seen from its directory. -/
def shelve (device : Device) (target : List Text) (text : Text) : Except Failure Unit × Disk :=
  shelf.writeAtomically device ["a"] ⟨.single, ["p"]⟩ ⟨.relative, target⟩ text

/-- A device that takes no byte but lets go of what it holds. -/
def full : Device where
  failure? step := if step = .fill then some .noSpace else none

end ProviderKit.Disk
