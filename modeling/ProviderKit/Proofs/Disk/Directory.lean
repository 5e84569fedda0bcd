import ProviderKit.Disk.Change
import ProviderKit.Proofs.Disk.Removal
import ProviderKit.Proofs.Disk.WellFormed

/-!
# Directories and what is in them

`Enters` states that a path leads into a directory, so that a path with one name more leads to that
name in the directory. Making directories adds nothing but directories, each where one of the paths
above the asked one leads (`makeDirectories_grown`).
-/

namespace ProviderKit.Disk

/-- The path leads, through links if need be, into the directory at the place. -/
structure Enters (disk : Disk) (path : Path) (place : Place) : Prop where
  arrives : walk disk true linkLimit [] (readNames path) = .ok place
  directory : disk.get? place = some .directory

/-- A path that leads to a directory leads into it. -/
theorem enters_of_find {disk : Disk} {path : Path} {place : Place}
    (h : disk.find false path = .ok (place, .directory)) : Enters disk path place := by
  obtain ⟨hlocate, hdirectory⟩ := find_eq_ok.1 h
  refine ⟨walk_through ?_ (walk_of_locate hlocate).2, hdirectory⟩
  rw [hdirectory]
  rintro _ ⟨⟩

/-- A path that can be given leads into the directory that is found at its end. -/
theorem enters_iff_find {disk : Disk} {path : Path} {place : Place} (hgivable : IsGivable path) :
    Enters disk path place ↔ disk.find true path = .ok (place, .directory) := by
  rw [find_eq_ok]
  exact ⟨fun h => ⟨locate_of_walk hgivable h.arrives, h.directory⟩,
    fun h => ⟨(walk_of_locate h.1).2, h.2⟩⟩

/-- One name at the end of a walk leads to the directory, to the one above, or to the place of the
name, whatever is there. -/
theorem followNames_single {disk : Disk} {place : Place}
    {expand : Place → List Text → Except Reason Place} (h : disk.get? place = some .directory)
    (name : Text) :
    followNames disk false expand place [name] =
      if name = Text.ofString "." then .ok place
      else if name = Text.ofString ".." then .ok place.dropLast
      else if Utf8.losslessSize name > nameLimit then .error .nameTooLong
      else .ok (place ++ [name]) := by
  rw [followNames, h]
  dsimp only
  rw [followNames_nil, followNames_nil]
  congr 3
  rcases disk.get? (place ++ [name]) with _ | _ | _ | _
  · rfl
  · exact followNames_nil _
  · exact followNames_nil _
  · rfl

/-- A path that has a child leads into a directory. -/
theorem enters_of_child {disk : Disk} {through : Bool} {path : Path} {name : Text} {q : Place}
    (h : disk.locate through (path.child name) = .ok q) :
    ∃ place, Enters disk path place := by
  obtain ⟨-, hwalk⟩ := walk_of_locate h
  rw [readNames_child] at hwalk
  obtain ⟨-, -, place, harrives, hdirectory, -⟩ := walk_append (List.cons_ne_nil _ _) hwalk
  exact ⟨place, harrives, hdirectory⟩

namespace Enters

variable {disk other : Disk} {path : Path} {place : Place}

/-- A path still leads into a directory on a disk that keeps the entries. -/
theorem extended (h : Enters disk path place) (hext : Extended disk other) :
    Enters other path place := by
  refine ⟨walk_of_extended hext ?_ h.arrives, hext.directory h.directory⟩
  rw [h.directory]
  rintro ⟨⟩

/-- Names behind the path are followed from the directory. -/
theorem goes (h : Enters disk path place) : ∃ left, ∀ through rest, rest ≠ [] →
    walk disk through linkLimit [] (readNames path ++ rest) =
      walk disk through left place rest := by
  rcases walk_split disk linkLimit [] (readNames path) with ⟨left, -, p, harrives, hgoes⟩ |
    ⟨reason, hnone, -⟩
  · rw [h.arrives] at harrives
    cases harrives
    exact ⟨left, hgoes⟩
  · have hfree := hnone place h.arrives
    rw [h.directory] at hfree
    cases hfree

/-- A plain name behind the path leads to that name in the directory, unless a link there is to be
followed. -/
theorem locate_child (h : Enters disk path place) {through : Bool} {name : Text} {q : Place}
    (hplain : IsPlain (Utf8.canonical name))
    (hlink : through = true →
      ∀ target, disk.get? (place ++ [Utf8.canonical name]) ≠ some (.link target))
    (hlocate : disk.locate through (path.child name) = .ok q) :
    q = place ++ [Utf8.canonical name] := by
  obtain ⟨left, hgoes⟩ := h.goes
  obtain ⟨-, hwalk⟩ := walk_of_locate hlocate
  rw [readNames_child, hgoes _ _ (List.cons_ne_nil _ _), walk_eq] at hwalk
  obtain ⟨-, hcases⟩ := followNames_step hwalk
  rcases hcases with ⟨hdot, -⟩ | ⟨hup, -⟩ | ⟨-, -, hcases⟩
  · exact absurd hdot hplain.1
  · exact absurd hup hplain.2
  rcases hcases with ⟨-, -, hq⟩ | ⟨-, -, -, -, hq⟩ | ⟨target, htarget, hmore, -⟩ | ⟨-, -, -, hq⟩
  · exact hq
  · exact hq
  · exact absurd htarget (hlink (hmore.resolve_left (· rfl)) target)
  · rw [followNames_nil] at hq
    cases hq
    rfl

/-- A plain name behind the path leads to that name in the directory if the request can be given. -/
theorem locate_name (h : Enters disk path place) {name : Text}
    (hplain : IsPlain (Utf8.canonical name))
    (hshort : Utf8.losslessSize (Utf8.canonical name) ≤ nameLimit)
    (hgivable : IsGivable (path.child name)) :
    disk.locate false (path.child name) = .ok (place ++ [Utf8.canonical name]) := by
  obtain ⟨left, hgoes⟩ := h.goes
  refine locate_of_walk hgivable ?_
  rw [readNames_child, hgoes _ _ (List.cons_ne_nil _ _), walk_eq,
    followNames_plain h.directory hplain hshort]
  rcases hget : disk.get? (place ++ [Utf8.canonical name]) with _ | entry
  · rfl
  · cases entry with
    | link target => rfl
    | directory => exact followNames_nil _
    | file => exact followNames_nil _

/-- The path itself leads to an entry. -/
theorem taken (h : Enters disk path place) (hgivable : IsGivable path) :
    ∃ p entry, disk.find false path = .ok (p, entry) := by
  obtain ⟨p, hwalk, hp⟩ := walk_short h.arrives
  have hget : ∃ entry, disk.get? p = some entry := by
    rcases hp with rfl | ⟨target, htarget⟩
    · exact ⟨_, h.directory⟩
    · exact ⟨_, htarget⟩
  obtain ⟨entry, hentry⟩ := hget
  exact ⟨p, entry, find_eq_ok.2 ⟨locate_of_walk hgivable hwalk, hentry⟩⟩

/-- One name behind the path is located in the same way on two disks if the path leads into the same
directory, since a link at the end is not followed. -/
theorem locate_child_congr (h : Enters disk path place) (h' : Enters other path place)
    (name : Text) : other.locate false (path.child name) = disk.locate false (path.child name) := by
  have hwalk : ∀ {disk : Disk}, Enters disk path place →
      walk disk false linkLimit [] (readNames (path.child name)) =
        if Utf8.canonical name = Text.ofString "." then .ok place
        else if Utf8.canonical name = Text.ofString ".." then .ok place.dropLast
        else if Utf8.losslessSize (Utf8.canonical name) > nameLimit then .error .nameTooLong
        else .ok (place ++ [Utf8.canonical name]) := by
    intro disk h
    obtain ⟨left, hgoes⟩ := h.goes
    rw [readNames_child, hgoes _ _ (List.cons_ne_nil _ _), walk_eq, followNames_single h.directory]
  unfold locate
  rw [← readNames, hwalk h, hwalk h']

end Enters

/-- A plain name behind a path leads to that name in the directory that the path leads into. -/
theorem locate_child_eq {disk : Disk} {path : Path} {name : Text} {q : Place}
    (hplain : IsPlain (Utf8.canonical name)) (h : disk.locate false (path.child name) = .ok q) :
    ∃ place, Enters disk path place ∧ q = place ++ [Utf8.canonical name] := by
  obtain ⟨place, henters⟩ := enters_of_child h
  exact ⟨place, henters, henters.locate_child hplain (by simp) h⟩

/-! ## Making directories -/

/-- The path made of the first names of a path. -/
def ancestor (path : Path) (n : Nat) : Path := ⟨path.root, path.names.take n⟩

/-- All names of a path are the path. -/
theorem ancestor_length (path : Path) : ancestor path path.names.length = path := by
  cases path
  simp [ancestor]

/-- What is above the parent of a path is above the path. -/
theorem ancestor_parent (path : Path) (n : Nat) :
    ancestor path.parent n = ancestor path (min n (path.names.length - 1)) := by
  simp [ancestor, Path.parent, List.dropLast_eq_take, List.take_take]

/-- The second disk has the entries of the first and shares the same files, and its other entries
are directories, each where a path of the given kind leads. -/
structure Grown (reach : Path → Prop) (disk left : Disk) : Prop where
  view : ∀ p, left.get? p = disk.get? p ∨
    (disk.get? p = none ∧ left.get? p = some .directory ∧
      ∃ path, reach path ∧ left.locate false path = .ok p)
  sharers : ∀ p, left.sharers p = disk.sharers p
  wellFormed : left.WellFormed

namespace Grown

variable {reach : Path → Prop} {disk middle left : Disk}

/-- Nothing has come. -/
theorem refl (h : disk.WellFormed) : Grown reach disk disk := ⟨fun _ => .inl rfl, fun _ => rfl, h⟩

/-- The entries are kept. -/
theorem extended (h : Grown reach disk left) : Extended disk left := by
  intro p entry hp
  rcases h.view p with hsame | ⟨hfree, -, -⟩
  · exact ⟨entry, hsame.trans hp, rfl⟩
  · rw [hp] at hfree
    cases hfree

/-- Directories come one after the other. -/
theorem trans (h : Grown reach disk middle) (h' : Grown reach middle left) :
    Grown reach disk left := by
  refine ⟨fun p => ?_, fun p => (h'.sharers p).trans (h.sharers p), h'.wellFormed⟩
  rcases h.view p with hsame | ⟨hfree, hdirectory, path, hpath, hlocate⟩
  · rcases h'.view p with hsame' | ⟨hfree', hdirectory', hlocate'⟩
    · exact .inl (hsame'.trans hsame)
    · exact .inr ⟨hsame ▸ hfree', hdirectory', hlocate'⟩
  · refine .inr ⟨hfree, h'.extended.directory hdirectory, path, hpath, ?_⟩
    refine locate_of_extended h'.extended ?_ hlocate
    rw [hdirectory]
    rintro ⟨⟩

/-- More paths may be meant. -/
theorem mono {reach' : Path → Prop} (h : Grown reach disk left)
    (hreach : ∀ path, reach path → reach' path) : Grown reach' disk left := by
  refine ⟨fun p => ?_, h.sharers, h.wellFormed⟩
  rcases h.view p with hsame | ⟨hfree, hdirectory, path, hpath, hlocate⟩
  · exact .inl hsame
  · exact .inr ⟨hfree, hdirectory, path, hreach path hpath, hlocate⟩

end Grown

/-- A directory that is made is all that comes. -/
theorem makeDirectory_grown {disk made : Disk} {path : Path} (hwf : disk.WellFormed)
    (h : disk.makeDirectory path = .ok made) : Grown (· = path) disk made := by
  obtain ⟨place, hlocate, hfree, rfl⟩ := makeDirectory_ok h
  obtain ⟨parent, name, rfl, hparent⟩ := hwf.locate_parent hlocate hfree
  obtain ⟨hfound, hself⟩ := find_eq_ok.1 (find_put_directory hlocate hfree)
  refine ⟨fun p => ?_, hwf.sharers_put (by simp [hfree]) _, hwf.put hparent hfree _⟩
  by_cases hp : p = parent ++ [name]
  · subst hp
    exact .inr ⟨hfree, hself, path, rfl, hfound⟩
  · exact .inl (get?_put_of_ne hp _ _)

/-- Directories are made where the path or one above it leads. -/
theorem makeDirectoriesWith_grown (levels : Nat) {disk : Disk} (hwf : disk.WellFormed)
    (mayExist : Bool) (path : Path) :
    Grown (fun p => ∃ n, p = ancestor path n) disk
      (makeDirectoriesWith levels disk mayExist path).2 := by
  have hmake : ∀ {path disk made}, disk.WellFormed → disk.makeDirectory path = .ok made →
      Grown (fun p => ∃ n, p = ancestor path n) disk made := by
    intro path disk made hwf hmade
    refine (makeDirectory_grown hwf hmade).mono ?_
    rintro p rfl
    exact ⟨_, (ancestor_length p).symm⟩
  induction levels generalizing disk mayExist path with
  | zero =>
    rw [makeDirectoriesWith]
    split
    next made hmade => exact hmake hwf hmade
    next fault hfault =>
      split
      · exact .refl hwf
      · split <;> exact .refl hwf
  | succ levels ih =>
    rw [makeDirectoriesWith]
    split
    next made hmade => exact hmake hwf hmade
    next fault hfault =>
      split
      next =>
        have habove : Grown (fun p => ∃ n, p = ancestor path n) disk
            (makeDirectoriesWith levels disk true path.parent).2 := by
          refine (ih hwf true path.parent).mono ?_
          rintro p ⟨n, rfl⟩
          exact ⟨_, ancestor_parent path n⟩
        split
        next heq =>
          rw [heq] at habove
          exact habove
        next middle heq =>
          rw [heq] at habove
          split
          next made hmade => exact habove.trans (hmake habove.wellFormed hmade)
          next => split <;> exact habove
      next => split <;> exact .refl hwf

section Making

variable [Interpreter]

/-- Making the directories along a path adds nothing but directories along it. -/
theorem makeDirectories_grown {disk : Disk} (hwf : disk.WellFormed) (mayExist : Bool)
    (path : Path) : Grown (fun p => ∃ n, p = ancestor path n) disk
      (disk.makeDirectories mayExist path).2 :=
  makeDirectoriesWith_grown _ hwf mayExist path

/-- A path that directories were made along leads into one. -/
theorem makeDirectories_enters {disk made : Disk} {path : Path}
    (h : disk.makeDirectories true path = (.ok (), made)) : ∃ place, Enters made path place := by
  have hmake : ∀ {disk made : Disk}, disk.makeDirectory path = .ok made →
      ∃ place, Enters made path place := by
    intro disk made hmade
    obtain ⟨place, hlocate, hfree, rfl⟩ := makeDirectory_ok hmade
    exact ⟨place, enters_of_find (find_put_directory hlocate hfree)⟩
  have hsettle : ∀ {disk : Disk} {fault}, disk.settleTaken true path fault = .ok () →
      ∃ place, Enters disk path place := by
    intro disk fault hsettled
    rw [settleTaken, if_neg (by simp)] at hsettled
    split at hsettled
    next hthere =>
      obtain ⟨place, hfind⟩ := isDirectory?_eq_true.1 hthere
      obtain ⟨hlocate, hdirectory⟩ := find_eq_ok.1 hfind
      exact ⟨place, (walk_of_locate hlocate).2, hdirectory⟩
    next => cases hsettled
    next => cases hsettled
  unfold makeDirectories at h
  generalize Interpreter.making = levels at h
  rcases levels with _ | levels
  all_goals
    rw [makeDirectoriesWith] at h
    split at h
    next hfirst =>
      cases h
      exact hmake hfirst
  · split at h
    · cases h
    · split at h
      · cases h
      · obtain ⟨hsettled, rfl⟩ := Prod.mk.inj h
        exact hsettle hsettled
  · split at h
    · split at h
      · cases h
      · split at h
        next hsecond =>
          cases h
          exact hmake hsecond
        next =>
          split at h
          · cases h
          · obtain ⟨hsettled, rfl⟩ := Prod.mk.inj h
            exact hsettle hsettled
    · split at h
      · cases h
      · obtain ⟨hsettled, rfl⟩ := Prod.mk.inj h
        exact hsettle hsettled

/-- Where the path of a directory leads into one, none is made. -/
theorem makeDirectories_of_enters {disk : Disk} {path : Path} {place : Place}
    (h : Enters disk path place) (mayExist : Bool) :
    (disk.makeDirectories mayExist path).2 = disk := by
  have hrefused : ∃ fault, disk.makeDirectory path = .error fault ∧
      fault ≠ .refused .missing path := by
    unfold makeDirectory
    rcases hlocate : disk.locate false path with fault | p
    · refine ⟨fault, rfl, ?_⟩
      rintro rfl
      obtain ⟨q, entry, hfind⟩ := h.taken (givable_of_missing hlocate)
      rw [(find_eq_ok.1 hfind).1] at hlocate
      cases hlocate
    · obtain ⟨q, entry, hfind⟩ := h.taken (walk_of_locate hlocate).1
      obtain ⟨hq, hentry⟩ := find_eq_ok.1 hfind
      rw [hlocate] at hq
      cases hq
      exact ⟨.refused .exists path, by simp only [bind, Except.bind, hentry], by simp⟩
  obtain ⟨fault, hfault, hne⟩ := hrefused
  have hcases : ∀ levels, (makeDirectoriesWith levels disk mayExist path).2 = disk := by
    intro levels
    cases levels <;>
    · rw [makeDirectoriesWith, hfault]
      dsimp only
      rw [if_neg hne]
      split <;> rfl
  exact hcases _

end Making

end ProviderKit.Disk
