import ProviderKit.Proofs.Disk.Alike
import ProviderKit.Proofs.Disk.Writing

/-!
# Requests on two disks side by side

A relation between two disks is `Carried` if the disks look the same to every walk and the small
steps that requests are made of, done to both, keep it. Then every request that unpacking makes has
the same outcome on both disks and keeps the relation (`Related`). To look alike is such a relation,
and so is to be the same disk with some property that every step keeps.
-/

namespace ProviderKit.Disk

/-- The two disks show the same, real paths nest as deep on both, and each step of a request, taken
on both, carries the relation on. -/
structure Carried (R : Disk → Disk → Prop) : Prop where
  wellFormed : ∀ {a b}, R a b → a.WellFormed
  view : ∀ {a b}, R a b → ∀ p, b.get? p = a.get? p
  length : ∀ {a b}, R a b → b.entries.length = a.entries.length
  put : ∀ {a b parent name}, R a b → a.get? parent = some .directory →
    a.get? (parent ++ [name]) = none → ∀ entry,
    R (a.put (parent ++ [name]) entry) (b.put (parent ++ [name]) entry)
  erase : ∀ {a b place}, R a b → a.get? place ≠ some .directory →
    R (a.erase place) (b.erase place)
  rewrite : ∀ {a b place mode content}, R a b →
    a.get? place = some (.file mode content) → ∀ mode' content',
    R (a.rewrite place (.file mode' content')) (b.rewrite place (.file mode' content'))
  share : ∀ {a b origin mode content parent name}, R a b →
    a.get? origin = some (.file mode content) → a.get? parent = some .directory →
    a.get? (parent ++ [name]) = none →
    R (a.share origin (parent ++ [name]) (.file mode content))
      (b.share origin (parent ++ [name]) (.file mode content))

/-! ## Relations that are carried -/

/-- The two disks look alike and are both sound. -/
structure Matching (disk other : Disk) : Prop extends Alike disk other where
  sound : disk.Sound
  sound' : other.Sound

/-- A sound disk matches itself. -/
theorem Matching.refl {disk : Disk} (h : disk.Sound) : Matching disk disk := ⟨.refl disk, h, h⟩

/-- Matching disks match after each step that is taken on both. -/
theorem matching_carried : Carried Matching where
  wellFormed h := h.sound.toWellFormed
  view h := h.view
  length h := h.length_eq h.sound.toOrderly h.sound'.toOrderly
  put h hparent hfree entry :=
    ⟨h.toAlike.put (by simp) entry, h.sound.put hparent hfree entry,
      h.sound'.put ((h.view _).trans hparent) ((h.view _).trans hfree) entry⟩
  erase h hplace :=
    ⟨h.toAlike.keep _, h.sound.erase hplace, h.sound'.erase (by rwa [h.view])⟩
  rewrite h hfile mode content :=
    ⟨h.toAlike.rewrite _ _, h.sound.rewrite hfile mode content,
      h.sound'.rewrite ((h.view _).trans hfile) mode content⟩
  share h hfile hparent hfree :=
    ⟨h.toAlike.share h.sound.toOrderly h.sound'.toOrderly _ (by simp) _,
      h.sound.share hfile hparent hfree,
      h.sound'.share ((h.view _).trans hfile) ((h.view _).trans hparent)
        ((h.view _).trans hfree)⟩

/-- The disks are the same sound disk, with a directory at the place. -/
structure Holds (place : Place) (disk other : Disk) : Prop where
  same : other = disk
  sound : disk.Sound
  directory : disk.get? place = some .directory

/-- No step removes a directory. -/
theorem holds_carried (place : Place) : Carried (Holds place) where
  wellFormed h := h.sound.toWellFormed
  view h p := by rw [h.same]
  length h := by rw [h.same]
  put {a b parent name} h hparent hfree entry := by
    refine ⟨by rw [h.same], h.sound.put hparent hfree entry, ?_⟩
    exact (extended_put hfree entry).directory h.directory
  erase {a b at'} h hplace := by
    refine ⟨by rw [h.same], h.sound.erase hplace, ?_⟩
    rw [get?_erase_of_ne, h.directory]
    rintro rfl
    exact hplace h.directory
  rewrite {a b at' mode content} h hfile mode' content' := by
    refine ⟨by rw [h.same], h.sound.rewrite hfile _ _, ?_⟩
    by_cases hroot : place = []
    · rw [hroot, get?_root]
    rw [get?_rewrite hroot, if_neg, h.directory]
    intro hmem
    obtain ⟨x, c, hx⟩ := h.sound.file_of_sharers hfile hmem
    rw [h.directory] at hx
    cases hx
  share {a b origin mode content parent name} h hfile hparent hfree := by
    refine ⟨by rw [h.same], h.sound.share hfile hparent hfree, ?_⟩
    rw [get?_share_of_ne, h.directory]
    rintro rfl
    have hdirectory := h.directory
    rw [hfree] at hdirectory
    cases hdirectory

/-! ## Requests -/

/-- The same request has the same outcome on both disks and leaves related ones. -/
def Related (R : Disk → Disk → Prop) : Except Fault Disk → Except Fault Disk → Prop
  | .ok disk, .ok other => R disk other
  | .error fault, .error fault' => fault' = fault
  | _, _ => False

namespace Carried

variable {R : Disk → Disk → Prop} (hR : Carried R) {disk other : Disk} (h : R disk other)
include hR h

/-- A path leads to the same place on both disks. -/
theorem locate (through : Bool) (path : Path) :
    other.locate through path = disk.locate through path := locate_congr (hR.view h) _ _

/-- A path leads to the same entry on both disks. -/
theorem find (through : Bool) (path : Path) :
    other.find through path = disk.find through path := find_congr (hR.view h) _ _

/-- A path has the same real path on both disks. -/
theorem realPath [Interpreter] (path : Path) : other.realPath path = disk.realPath path :=
  realPath_congr (hR.view h) (hR.length h) path

/-- The same entry is put at the free place that a path leads to. -/
theorem put_of_locate {through : Bool} {path : Path} {place : Place}
    (hlocate : disk.locate through path = .ok place) (hfree : disk.get? place = none)
    (entry : Entry) : R (disk.put place entry) (other.put place entry) := by
  obtain ⟨parent, name, rfl, hparent⟩ := (hR.wellFormed h).locate_parent hlocate hfree
  exact hR.put h hparent hfree entry

/-- A directory is made on both disks or on neither. -/
theorem makeDirectory (path : Path) :
    Related R (disk.makeDirectory path) (other.makeDirectory path) := by
  unfold Disk.makeDirectory
  rw [hR.locate h]
  rcases hlocate : disk.locate false path with fault | place
  · exact rfl
  simp only [bind, Except.bind, hR.view h]
  rcases hget : disk.get? place with _ | entry
  · exact hR.put_of_locate h hlocate hget _
  · exact rfl

/-- A file is written on both disks or on neither. -/
theorem write (path : Path) (content : Content) :
    Related R (disk.write path content) (other.write path content) := by
  unfold Disk.write
  rw [leadsToSlash_congr (hR.view h), hR.locate h]
  by_cases hslash : disk.leadsToSlash linkLimit path = true
  · rw [if_pos hslash, if_pos hslash]
    exact rfl
  rw [if_neg hslash, if_neg hslash]
  rcases hlocate : disk.locate true path with fault | place
  · exact rfl
  simp only [bind, Except.bind, pure, Except.pure, hR.view h]
  rcases hget : disk.get? place with _ | entry
  · exact hR.put_of_locate h hlocate hget _
  · cases entry with
    | directory => exact rfl
    | link => exact rfl
    | file mode old => exact hR.rewrite h hget _ _

/-- A name is removed on both disks or on neither. -/
theorem unlink (path : Path) : Related R (disk.unlink path) (other.unlink path) := by
  unfold Disk.unlink
  rw [hR.find h]
  rcases hfind : disk.find false path with fault | ⟨place, entry⟩
  · exact rfl
  have hget := (find_eq_ok.1 hfind).2
  cases entry with
  | directory => exact rfl
  | file => exact hR.erase h (by rw [hget]; simp)
  | link => exact hR.erase h (by rw [hget]; simp)

/-- A link is made on both disks or on neither. -/
theorem makeLink (target : Text) (path : Path) :
    Related R (disk.makeLink target path) (other.makeLink target path) := by
  unfold Disk.makeLink
  rw [hR.locate h]
  by_cases hencodable : (!isEncodable target) = true
  · rw [if_pos hencodable, if_pos hencodable]
    exact rfl
  rw [if_neg hencodable, if_neg hencodable]
  by_cases hnull : hasNull target = true
  · simp only [bind, Except.bind, pure, Except.pure, if_pos hnull]
    exact rfl
  by_cases hempty : target.isEmpty = true
  · simp only [bind, Except.bind, pure, Except.pure, if_neg hnull, if_pos hempty]
    exact rfl
  by_cases hlong : Utf8.losslessSize target ≥ pathLimit
  · simp only [bind, Except.bind, pure, Except.pure, if_neg hnull, if_neg hempty, if_pos hlong]
    exact rfl
  simp only [bind, Except.bind, pure, Except.pure, if_neg hnull, if_neg hempty, if_neg hlong]
  rcases hlocate : disk.locate false path with fault | place
  · exact rfl
  simp only [hR.view h]
  rcases hget : disk.get? place with _ | entry
  · exact hR.put_of_locate h hlocate hget _
  · exact rfl

/-- A second name is made on both disks or on neither. -/
theorem makeSecondName (source path : Path) :
    Related R (disk.makeSecondName source path) (other.makeSecondName source path) := by
  unfold Disk.makeSecondName
  rw [hR.find h, hR.locate h]
  rcases hfind : disk.find false source with fault | ⟨origin, entry⟩
  · exact rfl
  have horigin := (find_eq_ok.1 hfind).2
  rcases hlocate : disk.locate false path with fault | place
  · exact rfl
  simp only [bind, Except.bind, pure, Except.pure, hR.view h]
  rcases hget : disk.get? place with _ | taken
  · cases entry with
    | directory => exact rfl
    | link => exact hR.put_of_locate h hlocate hget _
    | file mode content =>
      obtain ⟨parent, name, rfl, hparent⟩ := (hR.wellFormed h).locate_parent hlocate hget
      exact hR.share h horigin hparent hget
  · exact rfl

end Carried

end ProviderKit.Disk
