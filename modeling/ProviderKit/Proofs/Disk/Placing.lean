import ProviderKit.Proofs.Disk.Writing

/-!
# Files put into a directory

A file that has no other name is put into a directory without a trace elsewhere: `Placed` states
that the file is all that has changed. A path leads where it led before, since a walk sees
directories and links only (`walk_of_sameWays`). A directory that `Receives` files under some names
goes on receiving them, so that files can be put there one after the other.
-/

namespace ProviderKit.Disk

/-- The two disks have the same directories and the same links. -/
def SameWays (disk other : Disk) : Prop :=
  ∀ p entry, entry.isFile = false → (disk.get? p = some entry ↔ other.get? p = some entry)

/-- Of two disks with the same ways either may come first. -/
theorem SameWays.symm {disk other : Disk} (h : SameWays disk other) : SameWays other disk :=
  fun p entry hentry => (h p entry hentry).symm

/-- Where neither a directory nor a link is on the one disk, there is none on the other. -/
theorem SameWays.no_way {disk other : Disk} (h : SameWays disk other) {p : Place}
    (hp : ∀ entry, disk.get? p = some entry → entry.isFile = true) {entry : Entry}
    (hentry : other.get? p = some entry) : entry.isFile = true := by
  rcases hfile : entry.isFile with _ | _
  · have hnot := hp entry ((h p entry hfile).2 hentry)
    rw [hfile] at hnot
    cases hnot
  · rfl

/-- A name is looked up alike on disks with the same ways. -/
theorem SameWays.looksUp {disk other : Disk} {here : Place} {name : Text}
    (h : SameWays disk other) (hlooks : LooksUp disk here name) : LooksUp other here name :=
  { hlooks with directory := (h _ _ rfl).1 hlooks.directory }

/-- A walk arrives at the same place on every disk with the same ways. -/
theorem walk_of_sameWays {disk other : Disk} (h : SameWays disk other) {through : Bool}
    {links : Nat} {here p : Place} {names : List Text}
    (hwalk : walk disk through links here names = .ok p) :
    walk other through links here names = .ok p := by
  -- A file is no way on: the walk ends at it, whether or not it is on the other disk.
  have hend : ∀ {links here name}, LooksUp disk here name →
      (∀ entry, disk.get? (here ++ [name]) = some entry → entry.isFile = true) →
      Walks other through (here ++ [name]) links here [name] := by
    intro links here name hlooks hnoway
    rcases hnew : other.get? (here ++ [name]) with _ | entry
    · exact .free (h.looksUp hlooks) hnew rfl
    have hfile := h.no_way hnoway hnew
    cases entry with
    | directory => cases hfile
    | link => cases hfile
    | file => exact .down (h.looksUp hlooks) hnew rfl .arrived
  rw [walk_eq_ok] at hwalk ⊢
  induction hwalk with
  | arrived => exact .arrived
  | dot hhere _ ih => exact .dot ((h _ _ rfl).1 hhere) ih
  | up hhere _ ih => exact .up ((h _ _ rfl).1 hhere) ih
  | free hlooks hfree hp =>
    rw [hp]
    refine hend hlooks ?_
    rw [hfree]
    rintro _ ⟨⟩
  | stop hlooks hlink hstays hp =>
    exact .stop (h.looksUp hlooks) ((h _ _ rfl).1 hlink) hstays hp
  | follow hlooks hlink hmore _ ih =>
    exact .follow (h.looksUp hlooks) ((h _ _ rfl).1 hlink) hmore ih
  | @down _ _ _ rest entry hlooks hentry hnolink hnext ih =>
    cases entry with
    | link => cases hnolink
    | directory => exact .down (h.looksUp hlooks) ((h _ _ rfl).1 hentry) rfl ih
    | file mode content =>
      rcases rest with _ | ⟨next, rest⟩
      · cases hnext
        refine hend hlooks ?_
        rw [hentry]
        rintro _ ⟨⟩
        rfl
      · cases hnext.directory.symm.trans hentry

/-- A path leads to the same place on every disk with the same ways. -/
theorem locate_of_sameWays {disk other : Disk} (h : SameWays disk other) {through : Bool}
    {path : Path} {place : Place} (hlocate : disk.locate through path = .ok place) :
    other.locate through path = .ok place := by
  obtain ⟨hgivable, hwalk⟩ := walk_of_locate hlocate
  exact locate_of_walk hgivable (walk_of_sameWays h hwalk)

/-- A file is read where its path leads to one. -/
theorem read_eq_ok {disk : Disk} {path : Path} {content : Content} :
    disk.read path = .ok content ↔
      ∃ place mode, disk.find true path = .ok (place, .file mode content) := by
  unfold read
  rcases hfind : disk.find true path with fault | ⟨place, entry⟩
  · simp [bind, Except.bind]
  · cases entry <;> simp [bind, Except.bind, pure, Except.pure]

/-- Whether a path leads to a link whose target ends with a slash depends on the ways alone. -/
theorem leadsToSlash_of_sameWays {disk other : Disk} (h : SameWays disk other) {links : Nat}
    {path : Path} (hslash : disk.leadsToSlash links path = false) :
    other.leadsToSlash links path = false := by
  induction links generalizing path with
  | zero => rfl
  | succ links ih =>
    rcases hfound : other.find false path with fault | ⟨place, entry⟩
    · rw [leadsToSlash, hfound]
    cases entry with
    | directory => rw [leadsToSlash, hfound]
    | file mode content => rw [leadsToSlash, hfound]
    | link target =>
      -- The same link is found on the first disk, and its target leads to the same place there.
      obtain ⟨hlocate, hlink⟩ := find_eq_ok.1 hfound
      have hfirst : disk.find false path = .ok (place, .link target) :=
        find_eq_ok.2 ⟨locate_of_sameWays h.symm hlocate, (h _ _ rfl).2 hlink⟩
      rw [leadsToSlash, hfirst] at hslash
      rw [leadsToSlash, hfound]
      dsimp only at hslash ⊢
      split at hslash
      next hends =>
        rw [if_pos hends]
        split at hslash
        · cases hslash
        next fault hfault =>
          rcases hnext : other.locate false
            ((⟨.single, place.dropLast⟩ : Path).join (.ofText target)) with fault' | next
          · rfl
          · rw [locate_of_sameWays h.symm hnext] at hfault
            cases hfault
      next hends =>
        rw [if_neg hends]
        exact ih hslash

/-- Writing a file changes the ways of no disk. -/
theorem Written.sameWays {disk left : Disk} {place : Place} {content : Content}
    (h : Written disk place content left) (hwf : disk.WellFormed) : SameWays disk left := by
  intro p entry hentry
  by_cases hp : p ∈ disk.sharers place
  · obtain ⟨mode, hfile⟩ := h.shown p hp
    rw [hfile]
    constructor
    · intro hold
      obtain ⟨x, old, rfl⟩ := h.file_before hwf hp hold
      cases hentry
    · rintro ⟨⟩
      cases hentry
  · rw [h.view p hp]

/-- A file that is written is read under every path that led to its place. -/
theorem Written.read {disk left : Disk} {place : Place} {content : Content}
    (h : Written disk place content left) (hwf : disk.WellFormed) {path : Path}
    (hlocate : disk.locate true path = .ok place) : left.read path = .ok content := by
  obtain ⟨mode, hfile⟩ := h.shown place (mem_sharers_self _ _)
  exact read_eq_ok.2
    ⟨place, mode, find_eq_ok.2 ⟨locate_of_sameWays (h.sameWays hwf) hlocate, hfile⟩⟩

/-- What a path leads to is there as before, unless it is the file. -/
theorem Written.find {disk left : Disk} {place : Place} {content : Content}
    (h : Written disk place content left) (hwf : disk.WellFormed) {through : Bool} {path : Path}
    {q : Place} {entry : Entry} (hfind : disk.find through path = .ok (q, entry))
    (hother : q ∉ disk.sharers place) : left.find through path = .ok (q, entry) := by
  obtain ⟨hlocate, hget⟩ := find_eq_ok.1 hfind
  exact find_eq_ok.2 ⟨locate_of_sameWays (h.sameWays hwf) hlocate, (h.view q hother).trans hget⟩

/-- Where a file could be written, it can be written again. -/
theorem write_again {disk middle : Disk} (hwf : disk.WellFormed) {path : Path} {first : Content}
    (h : disk.write path first = .ok middle) (content : Content) :
    ∃ place left, disk.locate true path = .ok place ∧ middle.write path content = .ok left ∧
      Written disk place content left := by
  obtain ⟨place, hlocate, hwritten⟩ := write_ok hwf h
  have hways := hwritten.sameWays hwf
  have hlocate' := locate_of_sameWays hways hlocate
  obtain ⟨mode, hfile⟩ := hwritten.shown place (mem_sharers_self _ _)
  exact ⟨place, _, hlocate,
    write_of_file (leadsToSlash_of_sameWays hways (leadsToSlash_of_write h)) hlocate' hfile content,
    hwritten.trans (written_rewrite hwritten.wellFormed hfile content)⟩

/-! ## A file and nothing else -/

/-- The second disk is the first one with a file of the given content at the place. -/
structure Placed (place : Place) (content : Content) (disk left : Disk) : Prop where
  ways : SameWays disk left
  file : ∃ mode, left.get? place = some (.file mode content)
  view : ∀ p, p ≠ place → left.get? p = disk.get? p
  sharers : ∀ p, left.sharers p = disk.sharers p
  kept : left.modeAt place = disk.modeAt place
  wellFormed : left.WellFormed

/-- A file that is written under its only name is all that changes. -/
theorem Written.placed {disk left : Disk} {place : Place} {content : Content}
    (h : Written disk place content left) (hwf : disk.WellFormed)
    (halone : disk.sharers place = [place]) : Placed place content disk left :=
  ⟨h.sameWays hwf, h.shown place (mem_sharers_self _ _),
    fun p hp => h.view p (by simpa [halone] using hp), h.sharers, h.kept, h.wellFormed⟩

namespace Placed

variable {disk middle left : Disk} {place : Place} {content : Content}

/-- A file that is written twice is what it was written last. -/
theorem trans {first : Content} (h : Placed place first disk middle)
    (h' : Placed place content middle left) : Placed place content disk left := by
  refine ⟨fun p entry hentry => ?_, h'.file, fun p hp => ?_, fun p => ?_, h'.kept.trans h.kept,
    h'.wellFormed⟩
  · exact (h.ways p entry hentry).trans (h'.ways p entry hentry)
  · exact (h'.view p hp).trans (h.view p hp)
  · exact (h'.sharers p).trans (h.sharers p)

/-- What a path leads to is there as before, unless it is the file itself. -/
theorem find (h : Placed place content disk left) {through : Bool} {path : Path} {q : Place}
    {entry : Entry} (hfind : disk.find through path = .ok (q, entry)) (hne : q ≠ place) :
    left.find through path = .ok (q, entry) := by
  obtain ⟨hlocate, hget⟩ := find_eq_ok.1 hfind
  exact find_eq_ok.2 ⟨locate_of_sameWays h.ways hlocate, (h.view q hne).trans hget⟩

/-- What a path leads to was there before, unless it is the file itself. -/
theorem find_before (h : Placed place content disk left) {through : Bool} {path : Path}
    {q : Place} {entry : Entry} (hfind : left.find through path = .ok (q, entry))
    (hne : q ≠ place) : disk.find through path = .ok (q, entry) := by
  obtain ⟨hlocate, hget⟩ := find_eq_ok.1 hfind
  exact find_eq_ok.2 ⟨locate_of_sameWays h.ways.symm hlocate, (h.view q hne).symm.trans hget⟩

/-- A path that leads to the place leads to the file. -/
theorem found (h : Placed place content disk left) {through : Bool} {path : Path}
    (hlocate : disk.locate through path = .ok place) :
    ∃ mode, left.find through path = .ok (place, .file mode content) := by
  obtain ⟨mode, hfile⟩ := h.file
  exact ⟨mode, find_eq_ok.2 ⟨locate_of_sameWays h.ways hlocate, hfile⟩⟩

end Placed

/-! ## A directory that receives files -/

/-- The name behind the path of the directory led to the name in the directory, and the file was
placed there. -/
structure Puts (path : Path) (place : Place) (name : Text) (content : Content)
    (disk left : Disk) : Prop where
  located : disk.locate true (path.child name) = .ok (place ++ [Utf8.canonical name])
  placed : Placed (place ++ [Utf8.canonical name]) content disk left

/-- The path leads into the directory at the place, where none of the names belongs to a link or to
a file with another name. -/
structure Receives (path : Path) (place : Place) (names : List Text) (disk : Disk) : Prop where
  enters : Enters disk path place
  plain : ∀ name ∈ names, ∀ target,
    disk.get? (place ++ [Utf8.canonical name]) ≠ some (.link target)
  single : ∀ name ∈ names, disk.sharers (place ++ [Utf8.canonical name]) =
    [place ++ [Utf8.canonical name]]
  wellFormed : disk.WellFormed

namespace Receives

variable {path : Path} {place : Place} {names : List Text} {disk left : Disk}

/-- A directory receives files after others. -/
theorem placed (h : Receives path place names disk) {q : Place} {content : Content}
    (hplaced : Placed q content disk left) : Receives path place names left := by
  refine ⟨⟨?_, ?_⟩, fun name hname target hlink => ?_, fun name hname => ?_, hplaced.wellFormed⟩
  · exact walk_of_sameWays hplaced.ways h.enters.arrives
  · exact (hplaced.ways _ _ rfl).1 h.enters.directory
  · exact h.plain name hname target ((hplaced.ways _ _ rfl).2 hlink)
  · rw [hplaced.sharers, h.single name hname]

/-- A file that is written under one of the names is put into the directory. -/
theorem write (h : Receives path place names disk) {name : Text} (hname : name ∈ names)
    (hplain : IsPlain (Utf8.canonical name)) {content : Content}
    (hwrite : disk.write (path.child name) content = .ok left) :
    Puts path place name content disk left := by
  obtain ⟨at', hlocate, hwritten⟩ := write_ok h.wellFormed hwrite
  have hat := h.enters.locate_child hplain (fun _ => h.plain name hname) hlocate
  subst hat
  exact ⟨hlocate, hwritten.placed h.wellFormed (h.single name hname)⟩

/-- A file that is copied to one of the names is put into the directory with the content it has. -/
theorem copy (h : Receives path place names disk) {name : Text} (hname : name ∈ names)
    (hplain : IsPlain (Utf8.canonical name)) {source : Path}
    (hcopy : disk.copy source (path.child name) = .ok left) :
    ∃ content, disk.read source = .ok content ∧ Puts path place name content disk left := by
  obtain ⟨content, hread, hwrite⟩ := copy_ok hcopy
  exact ⟨content, hread, h.write hname hplain hwrite⟩

end Receives

end ProviderKit.Disk
