import ProviderKit.Proofs.Disk.Directory

/-!
# What writing changes

Writing a file changes what is seen at the places that share it, and at no other (`write_ok`). A
file that is moved over another one, or over a link, is seen at its new place only, and nothing else
changes (`moveFile_ok`, `get?_moved`).
-/

namespace ProviderKit.Disk

/-- The permissions of the file at the place, and of a new one if there is none. -/
def modeAt (disk : Disk) (place : Place) : Mode :=
  match disk.get? place with
  | some (.file mode _) => mode
  | _ => .usual

/-- The second disk is the first one with a file of the given content at the place, under all the
names that it has. A file that was there keeps its permissions. -/
structure Written (disk : Disk) (place : Place) (content : Content) (left : Disk) : Prop where
  vacant : disk.get? place = none ∨ ∃ mode old, disk.get? place = some (.file mode old)
  shown : ∀ q ∈ disk.sharers place, ∃ mode, left.get? q = some (.file mode content)
  view : ∀ q, q ∉ disk.sharers place → left.get? q = disk.get? q
  sharers : ∀ q, left.sharers q = disk.sharers q
  kept : left.modeAt place = disk.modeAt place
  wellFormed : left.WellFormed

namespace Written

variable {disk left : Disk} {place : Place} {content : Content}

/-- Where the file has its names there was a file before, or nothing. -/
theorem file_before (h : Written disk place content left) (hwf : disk.WellFormed) {q : Place}
    (hq : q ∈ disk.sharers place) {entry : Entry} (hentry : disk.get? q = some entry) :
    ∃ mode old, entry = .file mode old := by
  have hold : ∃ mode old, disk.get? q = some (.file mode old) := by
    by_cases hne : q = place
    · rcases h.vacant with hfree | hold
      · rw [← hne, hentry] at hfree
        cases hfree
      · rw [hne]
        exact hold
    · exact hwf.file_of_mem_sharers hq hne
  obtain ⟨mode, old, hold⟩ := hold
  rw [hentry] at hold
  exact ⟨mode, old, Option.some.inj hold⟩

/-- The entries are kept, and files stay files. -/
theorem extended (h : Written disk place content left) (hwf : disk.WellFormed) :
    Extended disk left := by
  intro q entry hq
  by_cases hmem : q ∈ disk.sharers place
  · obtain ⟨mode, hfile⟩ := h.shown q hmem
    obtain ⟨x, old, rfl⟩ := h.file_before hwf hmem hq
    exact ⟨_, hfile, rfl⟩
  · exact ⟨entry, (h.view q hmem).trans hq, rfl⟩

/-- A file that is written twice is what it was written last. -/
theorem trans {middle : Disk} {first : Content} (h : Written disk place first middle)
    (h' : Written middle place content left) : Written disk place content left := by
  refine ⟨h.vacant, fun q hq => ?_, fun q hq => ?_, fun q => ?_, h'.kept.trans h.kept,
    h'.wellFormed⟩
  · exact h'.shown q (by rwa [h.sharers])
  · rw [h'.view q (by rwa [h.sharers]), h.view q hq]
  · rw [h'.sharers, h.sharers]

end Written

/-- A new file at a free place in a directory is written. -/
theorem written_put {disk : Disk} (hwf : disk.WellFormed) {parent : Place} {name : Text}
    (hparent : disk.get? parent = some .directory) (hfree : disk.get? (parent ++ [name]) = none)
    (content : Content) : Written disk (parent ++ [name]) content
      (disk.put (parent ++ [name]) (.file .usual content)) := by
  have halone : disk.sharers (parent ++ [name]) = [parent ++ [name]] :=
    hwf.sharers_of_no_file (by simp [hfree])
  refine ⟨.inl hfree, ?_, ?_, hwf.sharers_put (by simp [hfree]) _, ?_, hwf.put hparent hfree _⟩
  · intro q hq
    rw [halone, List.mem_singleton] at hq
    rw [hq]
    exact ⟨.usual, get?_put_self (by simp) _ _⟩
  · intro q hq
    rw [halone, List.mem_singleton] at hq
    exact get?_put_of_ne hq _ _
  · rw [modeAt, modeAt, get?_put_self (by simp), hfree]

/-- A file that is rewritten is written. -/
theorem written_rewrite {disk : Disk} (hwf : disk.WellFormed) {place : Place} {mode : Mode}
    {old : Content} (hfile : disk.get? place = some (.file mode old)) (content : Content) :
    Written disk place content (disk.rewrite place (.file mode content)) := by
  have hroot : ∀ q ∈ disk.sharers place, q ≠ [] := by
    rintro q hq rfl
    by_cases hne : [] = place
    · rw [← hne, get?_root] at hfile
      cases hfile
    · obtain ⟨x, c, hx⟩ := hwf.file_of_mem_sharers hq hne
      rw [get?_root] at hx
      cases hx
  refine ⟨.inr ⟨mode, old, hfile⟩, ?_, ?_, fun q => sharers_rewrite _ _ _ _, ?_,
    hwf.rewrite hfile _ _⟩
  · intro q hq
    exact ⟨mode, by rw [get?_rewrite (hroot q hq), if_pos hq]⟩
  · intro q hq
    by_cases hq' : q = []
    · rw [hq', get?_root, get?_root]
    · rw [get?_rewrite hq', if_neg hq]
  · have hself := mem_sharers_self disk place
    rw [modeAt, modeAt, get?_rewrite (hroot place hself), if_pos hself, hfile]

/-- Where a file could be written, the path leads to no link whose target ends with a slash. -/
theorem leadsToSlash_of_write {disk left : Disk} {path : Path} {content : Content}
    (h : disk.write path content = .ok left) : disk.leadsToSlash linkLimit path = false := by
  rcases hslash : disk.leadsToSlash linkLimit path with _ | _
  · rfl
  · rw [write, hslash] at h
    cases h

/-- A file is overwritten where its path leads to it. -/
theorem write_of_file {disk : Disk} {path : Path} {place : Place}
    (hslash : disk.leadsToSlash linkLimit path = false)
    (hlocate : disk.locate true path = .ok place) {mode : Mode} {old : Content}
    (hfile : disk.get? place = some (.file mode old)) (content : Content) :
    disk.write path content = .ok (disk.rewrite place (.file mode content)) := by
  rw [write, hslash]
  simp only [Bool.false_eq_true, if_false, pure, bind, Except.pure, Except.bind, hlocate, hfile]

/-- A file that could be written is written where its path leads. -/
theorem write_ok {disk left : Disk} (hwf : disk.WellFormed) {path : Path} {content : Content}
    (h : disk.write path content = .ok left) :
    ∃ place, disk.locate true path = .ok place ∧ Written disk place content left := by
  unfold write at h
  by_cases hslash : disk.leadsToSlash linkLimit path = true
  · rw [if_pos hslash] at h
    cases h
  rw [if_neg hslash] at h
  simp only [pure, bind, Except.pure, Except.bind] at h
  rcases hlocate : disk.locate true path with fault | place
  · rw [hlocate] at h
    cases h
  rw [hlocate] at h
  refine ⟨place, rfl, ?_⟩
  dsimp only at h
  rcases hget : disk.get? place with _ | entry
  · rw [hget] at h
    cases h
    obtain ⟨parent, name, rfl, hparent⟩ := hwf.locate_parent hlocate hget
    exact written_put hwf hparent hget content
  · rw [hget] at h
    cases entry with
    | directory => cases h
    | link => cases h
    | file mode old =>
      cases h
      exact written_rewrite hwf hget content

/-- A copy writes what it has read. -/
theorem copy_ok {disk left : Disk} {source target : Path} (h : disk.copy source target = .ok left) :
    ∃ content, disk.read source = .ok content ∧ disk.write target content = .ok left := by
  have hrest : (do
      let content ← disk.read source
      disk.write target content) = Except.ok left →
      ∃ content, disk.read source = .ok content ∧ disk.write target content = .ok left := by
    intro hrest
    rcases hread : disk.read source with fault | content
    · rw [hread] at hrest
      cases hrest
    · rw [hread] at hrest
      exact ⟨content, rfl, hrest⟩
  unfold copy at h
  dsimp only at h
  split at h
  · split at h
    · cases h
    · exact hrest h
  · exact hrest h

/-! ## Files that are moved -/

/-- A file that could be moved replaces what was at the target, which was no directory, unless it is
the same file already. -/
theorem moveFile_ok {disk left : Disk} {source target : Path}
    (h : disk.moveFile source target = .ok left) :
    ∃ origin entry place, disk.find false source = .ok (origin, entry) ∧
      disk.locate false target = .ok place ∧ disk.get? place ≠ some .directory ∧
      ((place ∈ disk.sharers origin ∧ left = disk) ∨
        left = (disk.erase place).move origin place) := by
  unfold moveFile at h
  rcases hfind : disk.find false source with fault | ⟨origin, entry⟩
  · rw [hfind] at h
    cases h
  rw [hfind] at h
  rcases hlocate : disk.locate false target with fault | place
  · rw [hlocate] at h
    cases h
  rw [hlocate] at h
  simp only [bind, Except.bind] at h
  split at h
  · cases h
  refine ⟨origin, entry, place, rfl, rfl, ?_⟩
  split at h
  · cases h
  next hplace =>
    refine ⟨hplace, ?_⟩
    split at h
    next hshared =>
      cases h
      exact .inl ⟨by simpa using hshared, rfl⟩
    next =>
      cases h
      exact .inr rfl

section Moved

variable {disk : Disk} {origin place : Place} {mode : Mode} {content : Content}
  (hwf : disk.WellFormed) (horigin : disk.get? origin = some (.file mode content))
  (hplace : disk.get? place ≠ some .directory) (hne : origin ≠ place)
include hwf horigin hplace hne

/-- A file that is moved is seen at its new place and not at the old one, and elsewhere nothing
changes. -/
theorem get?_moved (q : Place) : ((disk.erase place).move origin place).get? q =
    if q = place then some (.file mode content)
    else if q = origin then none else disk.get? q := by
  have horigin' : origin ≠ [] := by
    rintro rfl
    rw [get?_root] at horigin
    cases horigin
  have hplace' : place ≠ [] := by
    rintro rfl
    exact hplace (get?_root disk)
  have hbelow : ∀ rest, rest ≠ [] → disk.get? (origin ++ rest) = none := fun rest hrest =>
    hwf.below (by rw [horigin]; simp) hrest
  by_cases hq : place <+: q
  · obtain ⟨rest, rfl⟩ := hq
    by_cases hrest : rest = []
    · subst hrest
      have hgone : (disk.erase place).get? (place ++ []) = none := by
        rw [List.append_nil, get?_erase_self hplace']
      rw [get?_move_target hplace' horigin' hgone, List.append_nil, List.append_nil, if_pos rfl,
        get?_erase_of_ne hne, horigin]
    · have hfree : disk.get? (place ++ rest) = none := hwf.below hplace hrest
      have hgone : (disk.erase place).get? (place ++ rest) = none := by
        rw [get?_erase_of_ne (by simpa using hrest), hfree]
      rw [get?_move_target hplace' horigin' hgone, if_neg (by simpa using hrest)]
      have hmoved : (disk.erase place).get? (origin ++ rest) = none := by
        by_cases heq : origin ++ rest = place
        · rw [heq, get?_erase_self hplace']
        · rw [get?_erase_of_ne heq, hbelow rest hrest]
      rw [hmoved]
      split
      · rfl
      · exact hfree.symm
  · have hne' : q ≠ place := fun heq => hq (heq ▸ List.prefix_refl q)
    rw [get?_move_elsewhere horigin' hq, if_neg hne']
    by_cases hfrom : origin <+: q
    · rw [if_pos hfrom]
      obtain ⟨rest, rfl⟩ := hfrom
      by_cases hrest : rest = []
      · rw [hrest, List.append_nil, if_pos rfl]
      · rw [if_neg (by simpa using hrest), hbelow rest hrest]
    · have hstays : q ≠ origin := fun heq => hfrom (heq ▸ List.prefix_refl q)
      rw [if_neg hfrom, if_neg hstays, get?_erase_of_ne hne']

/-- A disk stays well-formed when a file is moved to a place in a directory. -/
theorem wellFormed_moved (hparent : disk.get? place.dropLast = some .directory) :
    ((disk.erase place).move origin place).WellFormed := by
  have hview := get?_moved hwf horigin hplace hne
  have hstays : ∀ p, disk.get? p = some .directory →
      ((disk.erase place).move origin place).get? p = some .directory := by
    intro p hp
    rw [hview, if_neg, if_neg, hp]
    · rintro rfl
      rw [hp] at horigin
      cases horigin
    · rintro rfl
      exact hplace hp
  constructor
  · intro p name entry hp
    rw [hview] at hp
    split at hp
    next heq =>
      refine hstays p ?_
      rw [← heq, List.dropLast_concat] at hparent
      exact hparent
    split at hp
    · cases hp
    · exact hstays p (hwf.parent _ _ _ hp)
  · intro group hgroup p hp
    simp only [move, erase, keep, List.map_map, List.mem_map] at hgroup
    obtain ⟨before, hbefore, rfl⟩ := hgroup
    obtain ⟨q, hq, rfl⟩ := List.mem_map.1 hp
    rw [List.mem_filter, bne_iff_ne] at hq
    obtain ⟨x, c, hfile⟩ := hwf.shared before hbefore q hq.1
    change ∃ x c, ((disk.erase place).move origin place).get? (movedTo origin place q) =
      some (.file x c)
    by_cases hfrom : origin <+: q
    · obtain ⟨rest, rfl⟩ := hfrom
      have hrest : rest = [] := by
        refine Classical.byContradiction fun hrest => ?_
        rw [hwf.below (by rw [horigin]; simp) hrest] at hfile
        cases hfile
      subst hrest
      refine ⟨mode, content, ?_⟩
      rw [show movedTo origin place (origin ++ []) = place by simp [movedTo], hview, if_pos rfl]
    · have hstay : movedTo origin place q = q := by
        rw [movedTo, if_neg (by simpa [List.isPrefixOf_iff_prefix] using hfrom)]
      have hother : q ≠ origin := fun heq => hfrom (heq ▸ List.prefix_refl q)
      exact ⟨x, c, by rw [hstay, hview, if_neg hq.2, if_neg hother, hfile]⟩

end Moved

end ProviderKit.Disk
