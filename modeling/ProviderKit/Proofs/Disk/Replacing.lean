import ProviderKit.Proofs.Disk.Names
import ProviderKit.Proofs.Disk.Writing

/-!
# When a file is replaced as a whole

Before a file is written as a whole, the directories above its target are made. Then it needs a free
name for the temporary file, a text that can be encoded, and a target where no directory is
(`Ready`), on a device that serves. With these it is written and is all that has changed
(`writeOn_of_ready`), and without them nothing changes any more, unless the device holds on to the
temporary file (`writeOn_cases`). In a directory that is there, `writeWhole_view` and
`writeWhole_done` say the same of the disk itself. A disk that another entry stands on at one place
draws the same temporary name if the path of the directory leads to the same
(`temporaryPath_congr`).
-/

namespace ProviderKit.Disk

variable {disk other : Disk} {directory path : Path} {place : Place}

/-! ## The steps -/

/-- A file is moved over what is no directory, to a path that has a name. -/
theorem moveFile_done {source target : Path} {origin : Place} {entry : Entry}
    (hfind : disk.find false source = .ok (origin, entry))
    (hlocate : disk.locate false target = .ok place) (hnames : target.names ≠ [])
    (hdots : endsInDots target = false) (hplace : disk.get? place ≠ some .directory)
    (halone : place ∉ disk.sharers origin) :
    disk.moveFile source target = .ok ((disk.erase place).move origin place) := by
  have hbusy : (target.names.isEmpty || endsInDots target) = false := by
    rw [hdots, Bool.or_false]
    exact List.isEmpty_eq_false_iff.2 hnames
  unfold moveFile
  rw [hfind, hlocate]
  simp only [bind, Except.bind, pure, Except.pure, hbusy, Bool.false_eq_true, if_false]
  have hshared : ¬ (disk.sharers origin).contains place = true := by
    rwa [List.contains_iff_mem]
  rw [if_neg hshared]

/-- A directory that is there may be there. -/
theorem makeDirectories_done [Interpreter] (hdirectory : Enters disk directory place)
    (hgivable : IsGivable directory) : disk.makeDirectories true directory = (.ok (), disk) := by
  -- The place is taken, and that is no fault since the path leads to a directory.
  have hmake : disk.makeDirectory directory = .error (.refused .exists directory) := by
    obtain ⟨p, entry, hfind⟩ := hdirectory.taken hgivable
    obtain ⟨hlocate, hentry⟩ := find_eq_ok.1 hfind
    rw [makeDirectory, hlocate]
    simp only [bind, Except.bind, hentry]
  have hsettle : disk.settleTaken true directory (.refused .exists directory) = .ok () := by
    have hfind := find_eq_ok.2 ⟨locate_of_walk hgivable hdirectory.arrives, hdirectory.directory⟩
    rw [settleTaken, isDirectory?, test, hfind]
    rfl
  rw [makeDirectories, makeDirectoriesWith.eq_def, hmake]
  simp only [reduceCtorEq, Fault.refused.injEq, false_and, if_false, Fault.isPathText,
    Bool.false_eq_true, hsettle]

/-! ## Temporary files -/

/-- The name of a temporary file is longer than the name that it stands in for, so the two are read
as different names. -/
theorem temporaryName_ne (name draw : Text) :
    Utf8.canonical ("." ++ name ++ "." ++ draw ++ ".tmp") ≠ Utf8.canonical name := by
  intro heq
  have hbytes := congrArg (fun t => (Utf8.encodeLossless t).length) heq
  simp only [Utf8.encodeLossless_canonical, Utf8.encodeLossless_append,
    List.length_append] at hbytes
  have hdot : (Utf8.encodeLossless ".").length = 1 := by decide
  omega

/-- The name of a temporary file is a plain one. -/
theorem isPlain_temporaryName (name draw : Text) :
    IsPlain (Utf8.canonical ("." ++ name ++ "." ++ draw ++ ".tmp")) := by
  apply isPlain_canonical
  simp only [losslessSize_append]
  have hend : Utf8.losslessSize ".tmp" = 4 := by decide
  omega

/-- A path that leads to what is no directory has a plain name at its end, which stands in the
directory that the path above leads into. -/
theorem target_of_no_directory {target : Path} (hlocate : disk.locate false target = .ok place)
    (hplace : disk.get? place ≠ some .directory) (hwf : disk.WellFormed) :
    ∃ directory name parent, target = directory.child name ∧ IsPlain (Utf8.canonical name) ∧
      Enters disk directory parent ∧ place = parent ++ [Utf8.canonical name] := by
  rcases List.eq_nil_or_concat target.names with hnil | ⟨names, name, hnames⟩
  · have hroot : place = [] := by
      have hwalk := (walk_of_locate hlocate).2
      rw [readNames, hnil, List.map_nil, walk_eq, followNames_nil] at hwalk
      exact (Except.ok.inj hwalk).symm
    rw [hroot] at hplace
    exact absurd (get?_root disk) hplace
  have htarget : target = (⟨target.root, names⟩ : Path).child name := by
    rw [Path.child, ← List.concat_eq_append, ← hnames]
  rw [htarget] at hlocate
  obtain ⟨parent, henters⟩ := enters_of_child hlocate
  obtain ⟨left, hgoes⟩ := henters.goes
  have hwalk := (walk_of_locate hlocate).2
  rw [readNames_child, hgoes _ _ (List.cons_ne_nil _ _), walk_eq,
    followNames_single henters.directory] at hwalk
  -- A dot or two at the end would lead to a directory.
  split at hwalk
  · cases hwalk
    exact absurd henters.directory hplace
  next hdot =>
    split at hwalk
    · cases hwalk
      exact absurd (hwf.dropLast henters.directory) hplace
    next hup =>
      split at hwalk
      · cases hwalk
      · cases hwalk
        exact ⟨_, name, parent, htarget, ⟨hdot, hup⟩, henters, rfl⟩

/-- A temporary file comes to another place than where its target is, if no directory is there. -/
theorem temporary_ne {other : Disk} {directory target : Path} {draw : Text} {temp : Place}
    (htemporary : disk.locate false
      (directory.child ("." ++ target.name ++ "." ++ draw ++ ".tmp")) = .ok temp)
    (htarget : other.locate false target = .ok place) (hplace : other.get? place ≠ some .directory)
    (hwf : other.WellFormed) : temp ≠ place := by
  obtain ⟨above, name, parent, rfl, -, -, rfl⟩ := target_of_no_directory htarget hplace hwf
  rw [Path.name_child] at htemporary
  obtain ⟨before, rfl, -⟩ := walk_append_plain (isPlain_temporaryName name draw)
    ((readNames_child _ _) ▸ (walk_of_locate htemporary).2)
  intro heq
  exact temporaryName_ne name draw (List.cons.inj (List.append_inj' heq rfl).2).1

/-! ## The device -/

namespace Device

/-- The device fails at none of the steps of writing a file. What it does when a step is made up for
does not matter then. -/
def Serves (device : Device) : Prop :=
  ∀ step, step ≠ .refill → step ≠ .remove → device.failure? step = none

/-- The device lets go of a temporary file with the text that is given up: the file can be closed,
if it is open still, and it can be removed. -/
structure LetsGo (device : Device) (text : Text) : Prop where
  refills : device.failure? .fill ≠ none → device.failure? .refill = none
  closes : Utf8.encode? text = none ∨ device.failure? .fill ≠ none ∨
    device.failure? .sync ≠ none → device.failure? .close = none
  removes : device.failure? .remove = none

/-- A device that never fails serves, and lets go of what it holds. -/
theorem ample_serves : ample.Serves := fun _ _ _ => rfl

/-- A device that never fails lets go of what it holds. -/
theorem ample_letsGo (text : Text) : ample.LetsGo text := ⟨fun _ => rfl, fun _ => rfl, rfl⟩

end Device

/-- The request has failed, and the disk looks as the given one if a condition holds. -/
def Fails (disk : Disk) (condition : Prop) (result : Except Failure Unit × Disk) : Prop :=
  ∃ e, result.1 = .error e ∧ (condition → ∀ q, result.2.get? q = disk.get? q)

/-- A request that fails without a change has failed under any condition. -/
theorem fails_same (condition : Prop) (e : Failure) : Fails disk condition (.error e, disk) :=
  ⟨e, rfl, fun _ _ => rfl⟩

/-- Under a stronger condition the disk looks the same too. -/
theorem Fails.imp {condition stronger : Prop} {result : Except Failure Unit × Disk}
    (h : Fails disk condition result) (himp : stronger → condition) :
    Fails disk stronger result := by
  obtain ⟨e, he, hsame⟩ := h
  exact ⟨e, he, fun hstronger => hsame (himp hstronger)⟩

/-- What a text needs, on the disk with the directories above its target, to be written there as a
whole: a name for the temporary file is free, the text can be encoded, and no directory is at the
target. -/
structure Ready (disk : Disk) (draws : List Text) (target : Path) (text : Text) (place : Place)
    (bytes : Bytes) : Prop where
  drawn : ∃ temporary,
    disk.temporaryPath target.parent ("." ++ target.name ++ ".") ".tmp" draws = .ok temporary
  encoded : Utf8.encode? text = some bytes
  located : disk.locate false target = .ok place
  vacant : disk.get? place ≠ some .directory

section Moving

variable {temporary target : Path} {temp : Place} (mode : Mode) (bytes : Bytes)
  (hwf : disk.WellFormed) (htemporary : disk.locate false temporary = .ok temp)
  (hfree : disk.get? temp = none)
include hwf htemporary hfree

/-- A new temporary file is found. -/
theorem find_temporary : (disk.put temp (.file mode (.bytes bytes))).find false temporary =
    .ok (temp, .file mode (.bytes bytes)) ∧
    (disk.put temp (.file mode (.bytes bytes))).WellFormed := by
  obtain ⟨parent, name, rfl, hparent⟩ := hwf.locate_parent htemporary hfree
  have hself := get?_put_self (List.append_ne_nil_of_right_ne_nil parent (List.cons_ne_nil name []))
    disk (.file mode (.bytes bytes))
  refine ⟨find_eq_ok.2 ⟨locate_of_extended (extended_put hfree _) ?_ htemporary, hself⟩,
    hwf.put hparent hfree _⟩
  rw [hself]
  rintro - _ ⟨⟩

variable (device : Device)

/-- A temporary file that is removed leaves nothing behind. -/
theorem get?_discard (hremove : device.failure? .remove = none) (q : Place) :
    (device.discard (disk.put temp (.file mode (.bytes bytes))) temporary).get? q =
      disk.get? q := by
  obtain ⟨hfind, -⟩ := find_temporary mode bytes hwf htemporary hfree
  have hunlink : (disk.put temp (.file mode (.bytes bytes))).unlink temporary =
      .ok ((disk.put temp (.file mode (.bytes bytes))).erase temp) := by
    rw [unlink, hfind]
    rfl
  rw [Device.discard, hremove, hunlink]
  by_cases hq : q = temp
  · have hne : temp ≠ [] := by
      rintro rfl
      rw [get?_root] at hfree
      cases hfree
    rw [hq, get?_erase_self hne, hfree]
  · rw [get?_erase_of_ne hq, get?_put_of_ne hq]

/-- Giving up with the temporary file open fails, and leaves nothing behind if the file can be
closed and removed. -/
theorem abandon_fails (e : Failure) :
    Fails disk (device.failure? .close = none ∧ device.failure? .remove = none)
      (device.abandon (disk.put temp (.file mode (.bytes bytes))) temporary e) := by
  rw [Device.abandon]
  split
  next reason hclose =>
    refine ⟨_, rfl, fun hlets => ?_⟩
    rw [hlets.1] at hclose
    cases hclose
  next => exact ⟨e, rfl, fun hlets => get?_discard mode bytes hwf htemporary hfree device hlets.2⟩

/-- A temporary file is moved to its target, or that fails. -/
theorem moveIntoPlace_cases :
    (∃ left, device.moveIntoPlace (disk.put temp (.file mode (.bytes bytes))) temporary target =
        (.ok (), left) ∧ device.failure? .move = none ∧
      (disk.put temp (.file mode (.bytes bytes))).moveFile temporary target = .ok left) ∨
    Fails disk (device.failure? .remove = none)
      (device.moveIntoPlace (disk.put temp (.file mode (.bytes bytes))) temporary target) := by
  have hdiscard := get?_discard mode bytes hwf htemporary hfree device
  rw [Device.moveIntoPlace]
  split
  next => exact .inr ⟨_, rfl, hdiscard⟩
  next => exact .inr ⟨_, rfl, hdiscard⟩
  next left hmove hmoved => exact .inl ⟨left, rfl, hmove, hmoved⟩

/-- A temporary file that is filled is moved to its target with the permissions of a new file, or
that fails. -/
theorem finish_cases :
    (∃ left, device.finish (fun mode => disk.put temp (.file mode (.bytes bytes))) temporary
        target = (.ok (), left) ∧ (∀ step ∈ [WriteStep.sync, .close, .permit, .move],
          device.failure? step = none) ∧
      (disk.put temp (.file .usual (.bytes bytes))).moveFile temporary target = .ok left) ∨
    Fails disk ((device.failure? .sync ≠ none → device.failure? .close = none) ∧
        device.failure? .remove = none)
      (device.finish (fun mode => disk.put temp (.file mode (.bytes bytes))) temporary target) := by
  have hdiscard := get?_discard .secret bytes hwf htemporary hfree device
  rw [Device.finish]
  split
  next reason hsync =>
    refine .inr ((abandon_fails .secret bytes hwf htemporary hfree device _).imp fun hlets => ?_)
    exact ⟨hlets.1 (by rw [hsync]; simp), hlets.2⟩
  next => exact .inr ⟨_, rfl, fun hlets => hdiscard hlets.2⟩
  next => exact .inr ⟨_, rfl, fun hlets => hdiscard hlets.2⟩
  next hsync hclose hpermit =>
    refine (moveIntoPlace_cases .usual bytes hwf htemporary hfree device).imp ?_ fun hfails =>
      hfails.imp And.right
    rintro ⟨left, hleft, hmove, hmoved⟩
    exact ⟨left, hleft, by simp [hsync, hclose, hpermit, hmove], hmoved⟩

/-- A temporary file is filled and moved to its target, or that fails. -/
theorem fill_cases (text : Text) :
    (∃ left, device.fill (fun mode bytes => disk.put temp (.file mode (.bytes bytes))) temporary
        target bytes = (.ok (), left) ∧ (device.failure? .create = none → device.Serves) ∧
      (disk.put temp (.file .usual (.bytes bytes))).moveFile temporary target = .ok left) ∨
    Fails disk (device.LetsGo text)
      (device.fill (fun mode bytes => disk.put temp (.file mode (.bytes bytes))) temporary target
        bytes) := by
  rw [Device.fill]
  split
  next reason again hfill hrefill =>
    refine .inr ⟨_, rfl, fun hlets => ?_⟩
    rw [hlets.refills (by rw [hfill]; simp)] at hrefill
    cases hrefill
  next reason hfill hrefill =>
    refine .inr ((abandon_fails .secret _ hwf htemporary hfree device _).imp fun hlets => ?_)
    exact ⟨hlets.closes (.inr (.inl (by rw [hfill]; simp))), hlets.removes⟩
  next hfill =>
    refine (finish_cases bytes hwf htemporary hfree device).imp ?_ fun hfails =>
      hfails.imp fun hlets => ⟨fun hsync => hlets.closes (.inr (.inr hsync)), hlets.removes⟩
    rintro ⟨left, hleft, hsteps, hmoved⟩
    refine ⟨left, hleft, fun hcreate step hrefill hremove => ?_, hmoved⟩
    cases step with
    | create => exact hcreate
    | fill => exact hfill
    | refill => exact absurd rfl hrefill
    | remove => exact absurd rfl hremove
    | sync => exact hsteps _ (by simp)
    | close => exact hsteps _ (by simp)
    | permit => exact hsteps _ (by simp)
    | move => exact hsteps _ (by simp)

omit device

/-- A temporary file is moved over what is no directory, and then is all that has changed. -/
theorem moveFile_temporary (hlocate : disk.locate false target = .ok place)
    (hplace : disk.get? place ≠ some .directory) (hne : temp ≠ place) :
    ∃ left, (disk.put temp (.file mode (.bytes bytes))).moveFile temporary target = .ok left ∧
      left.WellFormed ∧ ∀ q, left.get? q =
        if q = place then some (.file mode (.bytes bytes)) else disk.get? q := by
  obtain ⟨hfind, hwf'⟩ := find_temporary mode bytes hwf htemporary hfree
  obtain ⟨directory, name, parent, rfl, hplain, henters, rfl⟩ :=
    target_of_no_directory hlocate hplace hwf
  have hext := extended_put hfree (.file mode (.bytes bytes))
  have hlocate' := locate_kept hext hlocate
  have halone := sharers_put_self disk temp (.file mode (.bytes bytes))
  have hself := (find_eq_ok.1 hfind).2
  generalize hput : disk.put temp (.file mode (.bytes bytes)) = written at *
  have hview : ∀ q, q ≠ temp → written.get? q = disk.get? q := by
    intro q hq
    rw [← hput, get?_put_of_ne hq]
  have hplace' : written.get? (parent ++ [Utf8.canonical name]) ≠ some .directory := by
    rwa [hview _ hne.symm]
  have hdots : endsInDots (directory.child name) = false := by
    have hdot : name ≠ Text.ofString "." := fun heq => hplain.1 (by rw [heq]; rfl)
    have hup : name ≠ Text.ofString ".." := fun heq => hplain.2 (by rw [heq]; rfl)
    simp [endsInDots, Path.child, hdot, hup]
  have hmove := moveFile_done hfind hlocate' (by simp [Path.child]) hdots hplace' (by
    rw [halone, List.mem_singleton]
    exact hne.symm)
  refine ⟨_, hmove, wellFormed_moved hwf' hself hplace' hne ?_, fun q => ?_⟩
  · rw [List.dropLast_concat]
    exact (henters.extended hext).directory
  · rw [get?_moved hwf' hself hplace' hne]
    split
    · rfl
    split
    next hq => rw [hq, hfree]
    next hq => exact hview q hq

end Moving

/-- A device that serves fills the temporary file and moves it. -/
theorem Device.Serves.fill_eq {device : Device} (h : device.Serves) (holding : Mode → Bytes → Disk)
    (temporary target : Path) (bytes : Bytes) :
    device.fill holding temporary target bytes =
      device.moveIntoPlace (holding .usual bytes) temporary target := by
  have hsteps : ∀ step ∈ [WriteStep.fill, .sync, .close, .permit],
      device.failure? step = none := by
    intro step hstep
    refine h step ?_ ?_ <;>
    · rintro rfl
      simp at hstep
  rw [Device.fill, hsteps .fill (by simp)]
  dsimp only
  rw [Device.finish, hsteps .sync (by simp), hsteps .close (by simp), hsteps .permit (by simp)]

/-! ## The whole -/

section Whole

variable [Interpreter] {device : Device} {target : Path} {draws : List Text} {text : Text}
  (hwf : disk.WellFormed)
include hwf

/-- A text that has what it needs is written as a whole on a device that serves: its bytes are at
the target, in a file with the permissions of a new one, and nothing else differs from the disk with
the directories above. -/
theorem writeOn_of_ready (hserves : device.Serves) {made : Disk} {bytes : Bytes}
    (hmake : disk.makeDirectories true target.parent = (.ok (), made))
    (h : Ready made draws target text place bytes) :
    ∃ left, disk.writeOn device draws target text = (.ok (), left) ∧ left.WellFormed ∧
      ∀ q, left.get? q =
        if q = place then some (.file .usual (.bytes bytes)) else made.get? q := by
  have hmade : made.WellFormed := by
    have hgrown := (makeDirectories_grown hwf true target.parent).wellFormed
    rwa [hmake] at hgrown
  obtain ⟨temporary, htemporary⟩ := h.drawn
  obtain ⟨draw, -, rfl, temp, hlocate, hfree⟩ := temporaryPath_ok htemporary
  have hne := temporary_ne hlocate h.located h.vacant hmade
  obtain ⟨left, hmoved, hwf', hview⟩ :=
    moveFile_temporary .usual bytes hmade hlocate hfree h.located h.vacant hne
  refine ⟨left, ?_, hwf', hview⟩
  unfold writeOn
  rw [hmake]
  dsimp only
  rw [htemporary]
  dsimp only
  rw [hserves .create (by simp) (by simp), hlocate, h.encoded]
  dsimp only
  rw [hserves.fill_eq, Device.moveIntoPlace, hserves .move (by simp) (by simp), hmoved]

/-- A text that is written as a whole has what it needs, on a device that serves; if it is not,
nothing differs from the disk with the directories above the target, provided that the device lets
go of the temporary file. -/
theorem writeOn_cases (device : Device) (draws : List Text) (target : Path) (text : Text) :
    let made := (disk.makeDirectories true target.parent).2
    (∀ left, disk.writeOn device draws target text = (.ok (), left) →
      disk.makeDirectories true target.parent = (.ok (), made) ∧ device.Serves ∧
      ∃ place bytes, Ready made draws target text place bytes) ∧
    (∀ e left, disk.writeOn device draws target text = (.error e, left) → device.LetsGo text →
      ∀ q, left.get? q = made.get? q) := by
  intro made
  have hmade : made.WellFormed := (makeDirectories_grown hwf true target.parent).wellFormed
  rcases hmake : disk.makeDirectories true target.parent with ⟨outcome, after⟩
  have hafter : made = after := congrArg Prod.snd hmake
  clear_value made
  subst hafter
  have hfails : ∀ result, Fails made (device.LetsGo text) result →
      (∀ left, result = (.ok (), left) → (outcome, made) = (.ok (), made) ∧ device.Serves ∧
        ∃ place bytes, Ready made draws target text place bytes) ∧
      ∀ e left, result = (.error e, left) → device.LetsGo text →
        ∀ q, left.get? q = made.get? q := by
    rintro ⟨-, left⟩ ⟨e, rfl, hsame⟩
    exact ⟨nofun, fun e' left' heq hlets => by cases heq; exact hsame hlets⟩
  unfold writeOn
  rw [hmake]
  rcases outcome with fault | ⟨⟩
  · exact hfails _ (fails_same _ _)
  dsimp only
  rcases htemporary : made.temporaryPath target.parent ("." ++ target.name ++ ".") ".tmp" draws with
    fault | temporary
  · exact hfails _ (fails_same _ _)
  dsimp only
  obtain ⟨draw, -, rfl, temp, hlocate, hfree⟩ := temporaryPath_ok htemporary
  rw [hlocate]
  rcases hcreate : device.failure? .create with _ | reason
  case some => exact hfails _ (fails_same _ _)
  dsimp only
  rcases hencode : Utf8.encode? text with _ | bytes
  · refine hfails _ ((abandon_fails .secret [] hmade hlocate hfree device _).imp fun hlets => ?_)
    exact ⟨hlets.closes (.inl hencode), hlets.removes⟩
  dsimp only
  rcases fill_cases bytes hmade hlocate hfree device text with
    ⟨left', hfilled, hserves, hmoved⟩ | hfailed
  case inr => exact hfails _ hfailed
  rw [hfilled]
  refine ⟨fun left _ => ⟨rfl, hserves hcreate, ?_⟩, nofun⟩
  obtain ⟨-, -, place, -, htarget, hplace, -⟩ := moveFile_ok hmoved
  obtain ⟨-, hwf'⟩ := find_temporary .usual bytes hmade hlocate hfree
  have hext := extended_put hfree (.file .usual (.bytes bytes))
  have hvacant : made.get? place ≠ some .directory := fun h => hplace (hext.directory h)
  obtain ⟨directory, name, -, rfl, -⟩ := target_of_no_directory htarget hplace hwf'
  rw [Path.parent_child] at hmake htemporary
  obtain ⟨parent, henters⟩ := makeDirectories_enters hmake
  -- The temporary file is no link and no directory, so the target was located there before.
  rw [henters.locate_child_congr (henters.extended hext)] at htarget
  exact ⟨place, bytes, by rw [Path.parent_child]; exact ⟨_, htemporary⟩, hencode, htarget,
    hvacant⟩

/-- A text that has what it needs is written as a whole. -/
theorem writeWhole_of_ready {made : Disk} {bytes : Bytes}
    (hmake : disk.makeDirectories true target.parent = (.ok (), made))
    (h : Ready made draws target text place bytes) :
    ∃ left, disk.writeWhole draws target text = (.ok (), left) ∧ left.WellFormed ∧
      ∀ q, left.get? q =
        if q = place then some (.file .usual (.bytes bytes)) else made.get? q :=
  writeOn_of_ready hwf Device.ample_serves hmake h

/-- A text that is written as a whole has what it needs; if it is not, nothing differs from the disk
with the directories above the target. -/
theorem writeWhole_cases (draws : List Text) (target : Path) (text : Text) :
    let made := (disk.makeDirectories true target.parent).2
    (∀ left, disk.writeWhole draws target text = (.ok (), left) →
      disk.makeDirectories true target.parent = (.ok (), made) ∧
      ∃ place bytes, Ready made draws target text place bytes) ∧
    (∀ e left, disk.writeWhole draws target text = (.error e, left) →
      ∀ q, left.get? q = made.get? q) := by
  obtain ⟨hok, herror⟩ := writeOn_cases hwf .ample draws target text
  refine ⟨fun left h => ?_, fun e left h => herror e left h (Device.ample_letsGo text)⟩
  obtain ⟨hmake, -, hready⟩ := hok left h
  exact ⟨hmake, hready⟩

end Whole

/-! ## In a directory that is there -/

/-- What could be written as a whole had a temporary name and could be encoded. -/
theorem writeWhole_needs [Interpreter] (hdirectory : Enters disk directory place) {name : Text}
    {draws : List Text} {text : Text} {left : Disk}
    (h : disk.writeWhole draws (directory.child name) text = (.ok (), left)) :
    (∃ temporary,
      disk.temporaryPath directory ("." ++ name ++ ".") ".tmp" draws = .ok temporary) ∧
    ∃ bytes, Utf8.encode? text = some bytes := by
  unfold writeWhole writeOn at h
  rw [Path.parent_child, Path.name_child] at h
  have hmade := makeDirectories_of_enters hdirectory true
  rcases hmake : disk.makeDirectories true directory with ⟨fault | ⟨⟩, made⟩
  all_goals rw [hmake] at h hmade
  · cases h
  subst hmade
  dsimp only at h
  rcases htemporary : made.temporaryPath directory ("." ++ name ++ ".") ".tmp" draws with
    fault | temporary
  · rw [htemporary] at h
    cases h
  rw [htemporary] at h
  refine ⟨⟨temporary, rfl⟩, ?_⟩
  rcases hbytes : Utf8.encode? text with _ | bytes
  · rw [hbytes] at h
    dsimp only at h
    split at h
    · cases h
    · cases h
    · cases h
  · exact ⟨bytes, rfl⟩

section There

variable [Interpreter] {name : Text} (hwf : disk.WellFormed)
    (hdirectory : Enters disk directory place) include hwf hdirectory

/-- Where no directory has to be made, a text that is written as a whole had what it needs, and is
all that has changed. -/
theorem writeWhole_changes (hname : 2 < Utf8.losslessSize name) {draws : List Text} {text : Text}
    {left : Disk} (h : disk.writeWhole draws (directory.child name) text = (.ok (), left)) :
    ∃ bytes, Ready disk draws (directory.child name) text (place ++ [Utf8.canonical name]) bytes ∧
      left.WellFormed ∧ ∀ q, left.get? q =
        if q = place ++ [Utf8.canonical name] then some (.file .usual (.bytes bytes))
        else disk.get? q := by
  obtain ⟨hmake, target, bytes, hready⟩ := (writeWhole_cases hwf draws _ text).1 left h
  rw [Path.parent_child, makeDirectories_of_enters hdirectory] at hready
  have hat := hdirectory.locate_child (isPlain_canonical hname) (by simp) hready.located
  subst hat
  obtain ⟨written, hwrite, hwf', hview⟩ := writeWhole_of_ready hwf hmake (by
    rwa [Path.parent_child, makeDirectories_of_enters hdirectory])
  rw [h] at hwrite
  cases hwrite
  rw [Path.parent_child, makeDirectories_of_enters hdirectory] at hview
  exact ⟨bytes, hready, hwf', hview⟩

/-- Writing a file as a whole puts a file at its name in the directory, and changes nothing else; if
it fails, it changes nothing. -/
theorem writeWhole_view (hname : 2 < Utf8.losslessSize name) (draws : List Text) (text : Text) :
    (∀ left, disk.writeWhole draws (directory.child name) text = (.ok (), left) →
      IsGivable (directory.child name) ∧ left.WellFormed ∧
      disk.get? (place ++ [Utf8.canonical name]) ≠ some .directory ∧
      ∃ mode content, ∀ q, left.get? q =
        if q = place ++ [Utf8.canonical name] then some (.file mode content)
        else disk.get? q) ∧
    (∀ e left, disk.writeWhole draws (directory.child name) text = (.error e, left) →
      ∀ q, left.get? q = disk.get? q) := by
  refine ⟨fun left h => ?_, fun e left h => ?_⟩
  · obtain ⟨bytes, hready, hwf', hview⟩ := writeWhole_changes hwf hdirectory hname h
    exact ⟨(walk_of_locate hready.located).1, hwf', hready.vacant, .usual, _, hview⟩
  · have hview := (writeWhole_cases hwf draws (directory.child name) text).2 e left h
    rwa [Path.parent_child, makeDirectories_of_enters hdirectory] at hview

/-- What has been written as a whole is at the target, byte by byte. -/
theorem writeWhole_eq_ok (hname : 2 < Utf8.losslessSize name) {draws : List Text} {text : Text}
    {left : Disk}
    (h : disk.writeWhole draws (directory.child name) text = (.ok (), left)) :
    IsGivable (directory.child name) ∧
    (∃ temporary,
      disk.temporaryPath directory ("." ++ name ++ ".") ".tmp" draws = .ok temporary) ∧
    ∃ bytes, Utf8.encode? text = some bytes ∧ left.WellFormed ∧ ∀ q, left.get? q =
      if q = place ++ [Utf8.canonical name] then some (.file .usual (.bytes bytes))
      else disk.get? q := by
  obtain ⟨bytes, hready, hwf', hview⟩ := writeWhole_changes hwf hdirectory hname h
  refine ⟨(walk_of_locate hready.located).1, ?_, bytes, hready.encoded, hwf', hview⟩
  have hdrawn := hready.drawn
  rwa [Path.parent_child, Path.name_child] at hdrawn

variable (hname : 2 < Utf8.losslessSize name)
  (hshort : Utf8.losslessSize (Utf8.canonical name) ≤ nameLimit)
include hname hshort

/-- A text that can be encoded is written as a whole where no directory stands in the way and a
name for the temporary file is free: its bytes are then at the target, and nothing else has
changed. -/
theorem writeWhole_done (hgivable : IsGivable (directory.child name))
    (hplace : disk.get? (place ++ [Utf8.canonical name]) ≠ some .directory)
    {draws : List Text} {temporary : Path} {text : Text} {bytes : Bytes}
    (htemporary : disk.temporaryPath directory ("." ++ name ++ ".") ".tmp" draws = .ok temporary)
    (hbytes : Utf8.encode? text = some bytes) :
    ∃ left, disk.writeWhole draws (directory.child name) text = (.ok (), left) ∧
      left.WellFormed ∧ ∀ q, left.get? q =
        if q = place ++ [Utf8.canonical name] then some (.file .usual (.bytes bytes))
        else disk.get? q := by
  have hmake := makeDirectories_done hdirectory (isGivable_of_child hgivable)
  rw [← Path.parent_child directory name] at hmake
  refine writeWhole_of_ready hwf hmake ⟨⟨temporary, ?_⟩, hbytes, ?_, hplace⟩
  · rw [Path.parent_child, Path.name_child, htemporary]
  · exact hdirectory.locate_name (isPlain_canonical hname) hshort hgivable

end There

/-! ## The same temporary name -/

/-- Two disks draw the same temporary name for a directory if its path, taken lexically, leads into
the same directory, and they show the same there at the places of the names. -/
theorem temporaryPath_congr {start finish : Text}
    (h : Enters disk ⟨directory.root, Path.collapse directory.names⟩ place)
    (h' : Enters other ⟨directory.root, Path.collapse directory.names⟩ place)
    (hplain : ∀ draw, IsPlain (Utf8.canonical (start ++ draw ++ finish)))
    (hview : ∀ draw, other.get? (place ++ [Utf8.canonical (start ++ draw ++ finish)]) =
      disk.get? (place ++ [Utf8.canonical (start ++ draw ++ finish)])) (draws : List Text) :
    other.temporaryPath directory start finish draws =
      disk.temporaryPath directory start finish draws := by
  have hfree : ∀ draws,
      other.freePath ⟨directory.root, Path.collapse directory.names⟩ start finish draws =
        disk.freePath ⟨directory.root, Path.collapse directory.names⟩ start finish draws := by
    -- By induction on the draws: the name of each is taken on both disks or on neither.
    intro draws
    induction draws with
    | nil => rfl
    | cons draw draws ih =>
      rw [freePath, freePath, h.locate_child_congr h', ih]
      rcases hlocate : disk.locate false
        ((⟨directory.root, Path.collapse directory.names⟩ : Path).child
          (start ++ draw ++ finish)) with fault | p
      · rfl
      · obtain rfl := h.locate_child (hplain draw) (by simp) hlocate
        simp only [bind, Except.bind, hview draw]
  unfold temporaryPath
  dsimp only
  rw [hfree]

end ProviderKit.Disk
