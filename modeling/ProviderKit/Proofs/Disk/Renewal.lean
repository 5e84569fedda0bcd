import ProviderKit.Proofs.Disk.Carried

/-!
# A directory that is made anew

Removing a directory with everything in it and making it again leaves an empty directory where the
path led, and nothing else has changed but for directories on the way there. `Cleared` describes the
disk just before the directory is made: its place is free, and the path leads there. What the
directory held before leaves no trace (`Cleared.matching`), and it can be cleared again whatever has
come into it since (`Cleared.again`).
-/

namespace ProviderKit.Disk

/-! ## Without a tree -/

/-- The places that are not at or below a place. -/
theorem not_isPrefixOf_iff {place p : Place} :
    (!place.isPrefixOf p) = true ↔ ¬ place <+: p := by
  rw [Bool.not_eq_true', Bool.eq_false_iff, ne_eq, List.isPrefixOf_iff_prefix]

/-- A directory that is emptied and then removed is gone with everything in it. -/
theorem erase_eraseBelow (disk : Disk) (place : Place) :
    (disk.eraseBelow place).erase place = disk.eraseTree place := by
  have hstays : ∀ p : Place, ((p != place) && (!place.isPrefixOf p || p == place)) =
      !place.isPrefixOf p := by
    intro p
    by_cases hp : p = place
    · subst hp
      simp
    · have hne : (p != place) = true := by simpa using hp
      have heq : (p == place) = false := by simpa using hp
      rw [hne, heq, Bool.true_and, Bool.or_false]
  simp only [eraseBelow, erase, eraseTree, keep, List.map_map, List.filter_filter,
    Function.comp_def, hstays]

/-- Without the tree at a place nothing is seen at or below it. -/
theorem get?_eraseTree_of_below {place p : Place} (h : place <+: p) (hplace : place ≠ [])
    (disk : Disk) : (disk.eraseTree place).get? p = none := by
  have hp : p ≠ [] := by
    rintro rfl
    exact hplace (List.prefix_nil.1 h)
  rw [eraseTree, get?_keep hp, if_neg]
  rw [not_isPrefixOf_iff]
  exact fun hnot => hnot h

/-- Elsewhere everything stays. -/
theorem get?_eraseTree_of_not_below {place p : Place} (h : ¬ place <+: p) (disk : Disk) :
    (disk.eraseTree place).get? p = disk.get? p := by
  by_cases hp : p = []
  · rw [hp, get?_root, get?_root]
  · rw [eraseTree, get?_keep hp, if_pos (not_isPrefixOf_iff.2 h)]

/-- Of the places that share a file those elsewhere still do. -/
theorem sharers_eraseTree {place p : Place} (h : ¬ place <+: p) (disk : Disk) :
    (disk.eraseTree place).sharers p = (disk.sharers p).filter fun q => !place.isPrefixOf q := by
  rw [eraseTree, sharers_keep, if_pos (not_isPrefixOf_iff.2 h)]

/-- What is seen without a tree is seen with it. -/
theorem extended_eraseTree (disk : Disk) {place : Place} (hplace : place ≠ []) :
    Extended (disk.eraseTree place) disk := by
  intro p entry hp
  by_cases hbelow : place <+: p
  · rw [get?_eraseTree_of_below hbelow hplace] at hp
    cases hp
  · exact ⟨entry, by rw [← hp, get?_eraseTree_of_not_below hbelow], rfl⟩

/-- Where nothing is, there is no tree to remove. -/
theorem Sound.eraseTree_of_free {disk : Disk} (h : disk.Sound) {place : Place}
    (hfree : disk.get? place = none) : disk.eraseTree place = disk := by
  have hstays : ∀ p entry, disk.get? p = some entry → (!place.isPrefixOf p) = true := by
    intro p entry hp
    exact not_isPrefixOf_iff.2 (h.not_below_of_free hfree hp)
  have hentries : disk.entries.filter (fun item => !place.isPrefixOf item.1) = disk.entries := by
    refine List.filter_eq_self.2 fun item hmem => ?_
    have hp : item.1 ≠ [] := fun hroot =>
      h.root (hroot ▸ List.mem_map_of_mem (f := Prod.fst) hmem)
    refine hstays item.1 item.2 ?_
    rw [get?_of_ne_root hp]
    exact (find?_eq_some h.once).2 hmem
  have hshared : disk.shared.map (·.filter fun p => !place.isPrefixOf p) = disk.shared := by
    conv_rhs => rw [← List.map_id disk.shared]
    refine List.map_congr_left fun group hgroup => ?_
    refine List.filter_eq_self.2 fun p hp => ?_
    obtain ⟨mode, content, hfile⟩ := h.shared group hgroup p hp
    exact hstays p _ hfile
  exact congrArg₂ Disk.mk hentries hshared

/-- The two disks show the same away from a place and what is below it, and the same files are
shared there. -/
structure SameOutside (place : Place) (disk other : Disk) : Prop where
  view : ∀ p, ¬ place <+: p → other.get? p = disk.get? p
  sharers : ∀ p q, ¬ place <+: p → ¬ place <+: q →
    (q ∈ other.sharers p ↔ q ∈ disk.sharers p)

/-- Disks that differ only at and below a place match without it. -/
theorem SameOutside.matching {place : Place} {disk other : Disk}
    (h : SameOutside place disk other) (hdisk : disk.Sound) (hother : other.Sound) :
    Matching (disk.eraseTree place) (other.eraseTree place) := by
  refine ⟨⟨fun p => ?_, fun p q => ?_⟩, hdisk.eraseTree place, hother.eraseTree place⟩
  · by_cases hp : p = []
    · rw [hp, get?_root, get?_root]
    by_cases hbelow : place <+: p
    · have hgone : ∀ disk : Disk, (disk.eraseTree place).get? p = none := by
        intro disk
        rw [eraseTree, get?_keep hp, if_neg]
        rw [not_isPrefixOf_iff]
        exact fun hnot => hnot hbelow
      rw [hgone, hgone]
    · rw [get?_eraseTree_of_not_below hbelow, get?_eraseTree_of_not_below hbelow,
        h.view p hbelow]
  · by_cases hbelow : place <+: p
    · have halone : ∀ disk : Disk, (disk.eraseTree place).sharers p = [p] := by
        intro disk
        rw [eraseTree, sharers_keep, if_neg]
        rw [not_isPrefixOf_iff]
        exact fun hnot => hnot hbelow
      rw [halone, halone]
    · rw [sharers_eraseTree hbelow, sharers_eraseTree hbelow, List.mem_filter, List.mem_filter]
      by_cases hq : place <+: q
      · simp [List.isPrefixOf_iff_prefix.2 hq]
      · rw [h.sharers p q hbelow hq]

/-! ## Removing and making -/

/-- A tree that is removed stood at the end of its path, which led there also when it was empty. -/
theorem removeTree_eq [Interpreter] {disk left : Disk} {path : Path}
    (h : disk.removeTree path = (.ok (), left)) :
    ∃ place, disk.find false path = .ok (place, .directory) ∧
      (disk.eraseBelow place).find false path = .ok (place, .directory) ∧
      left = disk.eraseTree place := by
  obtain ⟨place, hfind, -, hremove⟩ := removeTree_ok h
  obtain ⟨last, hlast, -, rfl⟩ := removeDirectory_ok hremove
  have hext : Extended (disk.eraseBelow place) disk := by
    intro p entry hp
    by_cases hbelow : place <+: p ∧ p ≠ place
    · rw [get?_eraseBelow_of_below hbelow.1 hbelow.2] at hp
      cases hp
    · exact ⟨entry, by rw [← hp, get?_eraseBelow_of_not_below hbelow], rfl⟩
  have hsame : last = place := by
    have hlocate := locate_kept hext (find_eq_ok.1 hlast).1
    rw [(find_eq_ok.1 hfind).1] at hlocate
    exact (Except.ok.inj hlocate).symm
  subst hsame
  exact ⟨last, hfind, hlast, erase_eraseBelow disk last⟩

/-- Removing a tree changes nothing outside the directory that its path leads into. -/
theorem removeTree_elsewhere [Interpreter] {disk : Disk} {path : Path} {place p : Place}
    (h : Enters disk path place) (hp : ¬ place <+: p) :
    (disk.removeTree path).2.get? p = disk.get? p := by
  rcases hremove : disk.removeTree path with ⟨fault | ⟨⟩, left⟩
  · unfold removeTree at hremove
    split at hremove
    next => cases hremove; rfl
    next => cases hremove; rfl
    next => split at hremove <;> cases hremove <;> rfl
    next place' hfind =>
      have harrives := (enters_of_find hfind).arrives
      rw [h.arrives] at harrives
      obtain rfl := Except.ok.inj harrives
      split at hremove
      next =>
        cases hremove
        exact get?_eraseUpTo_of_not_below hp _ _
      next =>
        dsimp only at hremove
        split at hremove
        next => cases hremove
        next =>
          cases hremove
          exact get?_eraseBelow_of_not_below (fun hbelow => hp hbelow.1) _
  · obtain ⟨place', hfind, -, rfl⟩ := removeTree_eq hremove
    have harrives := (enters_of_find hfind).arrives
    rw [h.arrives] at harrives
    obtain rfl := Except.ok.inj harrives
    exact get?_eraseTree_of_not_below hp _

/-- Nothing is directly in a directory that has been emptied. -/
theorem names_eraseBelow (disk : Disk) (place : Place) :
    (disk.eraseBelow place).names place = [] := by
  have hnone : (disk.eraseBelow place).entries.filterMap (fun item =>
      if place.isPrefixOf item.1 && item.1.length = place.length + 1 then item.1.getLast?
      else none) = [] := by
    refine List.filterMap_eq_nil_iff.2 fun item hmem => if_neg ?_
    have hstays : (!place.isPrefixOf item.1 || item.1 == place) = true := (List.mem_filter.1 hmem).2
    rw [Bool.and_eq_true, decide_eq_true_eq]
    rintro ⟨hbelow, hlength⟩
    simp only [hbelow, Bool.not_true, Bool.false_or, beq_iff_eq] at hstays
    rw [hstays] at hlength
    omega
  exact congrArg (inOrder Text.le) hnone

/-- A path to a free place does not end by going up. -/
theorem WellFormed.last_of_free {disk : Disk} (h : disk.WellFormed) {through : Bool} {path : Path}
    {place : Place} (hlocate : disk.locate through path = .ok place)
    (hfree : disk.get? place = none) : path.names.getLast? ≠ some (Text.ofString "..") := by
  intro hlast
  obtain ⟨init, hinit⟩ : ∃ init, path.names = init ++ [Text.ofString ".."] := by
    rcases List.eq_nil_or_concat path.names with hnil | ⟨init, last, hconcat⟩
    · rw [hnil] at hlast
      cases hlast
    · rw [List.concat_eq_append] at hconcat
      rw [hconcat, List.getLast?_concat] at hlast
      cases hlast
      exact ⟨init, hconcat⟩
  have hread : readNames path = init.map Utf8.canonical ++ [Text.ofString ".."] := by
    rw [readNames, hinit, List.map_append]
    rfl
  obtain ⟨-, hwalk⟩ := walk_of_locate hlocate
  rw [hread] at hwalk
  obtain ⟨left, -, p, -, hdirectory, hup⟩ := walk_append (List.cons_ne_nil _ _) hwalk
  rw [walk_up hdirectory, walk_eq, followNames_nil] at hup
  cases hup
  rw [h.dropLast hdirectory] at hfree
  cases hfree

/-- A shallow directory whose path leads to it also when it is empty can be removed with all it
holds. -/
theorem removeTree_of_emptied [Interpreter] {disk : Disk} {path : Path} {place : Place}
    (hfind : disk.find false path = .ok (place, .directory))
    (hshallow : disk.Shallow Interpreter.removing place)
    (hemptied : (disk.eraseBelow place).find false path = .ok (place, .directory))
    (hlast : path.names.getLast? ≠ some (Text.ofString "..")) :
    disk.removeTree path = (.ok (), disk.eraseTree place) := by
  have hremove : (disk.eraseBelow place).removeDirectory path = .ok (disk.eraseTree place) := by
    unfold removeDirectory
    rw [hemptied]
    simp only [bind, Except.bind, Entry.isDirectory, names_eraseBelow, if_neg hlast, pure,
      Except.pure, erase_eraseBelow]
    rfl
  rw [removeTree_of_shallow hfind hshallow, hremove]

/-- What every directory that is made along a path keeps, making all of them keeps. -/
theorem makeDirectoriesWith_keeps {I : Disk → Prop} (levels : Nat) {disk : Disk} {path : Path}
    (hmake : ∀ n {disk made}, I disk → disk.makeDirectory (ancestor path n) = .ok made → I made)
    (h : I disk) (mayExist : Bool) : I (makeDirectoriesWith levels disk mayExist path).2 := by
  induction levels generalizing disk mayExist path with
  | zero =>
    rw [makeDirectoriesWith]
    split
    next made hmade => exact hmake _ h (ancestor_length path ▸ hmade)
    next => split <;> first | exact h | (split <;> exact h)
  | succ levels ih =>
    rw [makeDirectoriesWith]
    split
    next made hmade => exact hmake _ h (ancestor_length path ▸ hmade)
    next =>
      split
      next =>
        have habove : I (makeDirectoriesWith levels disk true path.parent).2 :=
          ih (fun n _ _ hdisk hmade => hmake _ hdisk (ancestor_parent path n ▸ hmade)) h true
        split
        next heq =>
          rw [heq] at habove
          exact habove
        next middle heq =>
          rw [heq] at habove
          split
          next made hmade => exact hmake _ habove (ancestor_length path ▸ hmade)
          next => split <;> exact habove
      next => split <;> exact h

/-- A sound disk stays so when directories are made along a path. -/
theorem Sound.makeDirectoriesWith {disk : Disk} (h : disk.Sound) (levels : Nat) (mayExist : Bool)
    (path : Path) : (makeDirectoriesWith levels disk mayExist path).2.Sound := by
  refine makeDirectoriesWith_keeps levels (fun _ _ _ hdisk hmade => ?_) h mayExist
  obtain ⟨place, hlocate, hfree, rfl⟩ := makeDirectory_ok hmade
  obtain ⟨parent, name, rfl, hparent⟩ := hdisk.locate_parent hlocate hfree
  exact hdisk.put hparent hfree _

/-- A directory that may not be there already is made last, on a disk to which those above it have
come; if it can be made at once, none has. -/
theorem makeDirectories_ok [Interpreter] {disk left : Disk} {path : Path} (h : disk.Sound)
    (hmade : disk.makeDirectories false path = (.ok (), left)) :
    ∃ base, Grown (fun p => ∃ n, p = ancestor path n) disk base ∧ base.Sound ∧
      base.makeDirectory path = .ok left ∧
      (disk.makeDirectory path ≠ .error (.refused .missing path) → base = disk) := by
  unfold makeDirectories at hmade
  generalize Interpreter.making = levels at hmade
  rcases hfirst : disk.makeDirectory path with fault | made
  case ok =>
    refine ⟨disk, .refl h.toWellFormed, h, ?_, fun _ => rfl⟩
    rw [makeDirectoriesWith.eq_def, hfirst] at hmade
    cases hmade
    exact hfirst
  case error =>
    have hrefused : ∀ other : Disk, ∀ fault left,
        (other.settleTaken false path fault, other) ≠ (Except.ok (), left) := by
      rintro other fault left ⟨⟩
    rw [makeDirectoriesWith.eq_def, hfirst] at hmade
    dsimp only at hmade
    by_cases hmissing : fault = .refused .missing path
    case neg =>
      rw [if_neg hmissing] at hmade
      split at hmade
      · cases hmade
      · exact absurd hmade (hrefused _ _ _)
    case pos =>
      rw [if_pos hmissing] at hmade
      rcases levels with _ | levels
      · cases hmade
      have hreach : ∀ p, (∃ n, p = ancestor path.parent n) → ∃ n, p = ancestor path n := by
        rintro p ⟨n, hn⟩
        exact ⟨_, hn.trans (ancestor_parent path n)⟩
      have hgrown := (makeDirectoriesWith_grown levels h.toWellFormed true path.parent).mono hreach
      have hsound := h.makeDirectoriesWith levels true path.parent
      dsimp only at hmade
      rcases habove : Disk.makeDirectoriesWith levels disk true path.parent with ⟨fault' | _, base⟩
      · rw [habove] at hmade
        cases hmade
      rw [habove] at hmade hgrown hsound
      dsimp only at hmade hgrown hsound
      rcases hlast : base.makeDirectory path with fault' | made
      · rw [hlast] at hmade
        dsimp only at hmade
        split at hmade
        · cases hmade
        · exact absurd hmade (hrefused _ _ _)
      · rw [hlast] at hmade
        cases hmade
        exact ⟨base, hgrown, hsound, hlast, fun hne => absurd (hmissing ▸ rfl) hne⟩

/-! ## Clearing -/

/-- The second disk is the first one as it is when the directory at the path is about to be made
anew at the place: what was there is gone, a directory if anything, the directories on the way are
there, and the path leads to the place. -/
structure Cleared (path : Path) (place : Place) (disk base : Disk) : Prop where
  grown : Grown (fun p => ∃ n, p = ancestor path n) (disk.eraseTree place) base
  sound : base.Sound
  located : base.locate false path = .ok place
  free : base.get? place = none
  previous : disk.get? place = none ∨ disk.get? place = some .directory
  same : ∀ p, disk.locate false path = .ok p → p = place
  direct : (disk.get? place ≠ none ∨ disk.locate false path = .ok place) →
    base = disk.eraseTree place

/-- A free place that a path leads to is one where a directory can be made. -/
theorem makeDirectory_of_free {disk : Disk} {path : Path} {place : Place}
    (hlocate : disk.locate false path = .ok place) (hfree : disk.get? place = none) :
    disk.makeDirectory path = .ok (disk.put place .directory) := by
  unfold makeDirectory
  rw [hlocate]
  simp only [bind, Except.bind, hfree, pure, Except.pure]

/-- A path that leads to a directory without following a link at its end leads there also when it
follows one. -/
theorem find_through {disk : Disk} {path : Path} {place : Place}
    (h : disk.find false path = .ok (place, .directory)) :
    disk.find true path = .ok (place, .directory) := by
  obtain ⟨hlocate, hdirectory⟩ := find_eq_ok.1 h
  obtain ⟨hgivable, -⟩ := walk_of_locate hlocate
  exact find_eq_ok.2 ⟨locate_of_walk hgivable (enters_of_find h).arrives, hdirectory⟩

/-- A directory that has been removed is made again in the same place, and nothing else comes. -/
theorem cleared_of_removed [Interpreter] {disk emptied left : Disk} {path : Path} (h : disk.Sound)
    (hremoved : disk.removeTree path = (.ok (), emptied))
    (hmade : emptied.makeDirectories false path = (.ok (), left)) :
    ∃ place base, Cleared path place disk base ∧ left = base.put place .directory := by
  obtain ⟨place, hfind, hempty, rfl⟩ := removeTree_eq hremoved
  obtain ⟨hlocate, hdirectory⟩ := find_eq_ok.1 hfind
  obtain ⟨hlocate', hdirectory'⟩ := find_eq_ok.1 hempty
  obtain ⟨hgivable, hwalk⟩ := walk_of_locate hlocate'
  obtain ⟨base, hgrown, hsound, hlast, hdirect⟩ := makeDirectories_ok (h.eraseTree place) hmade
  obtain ⟨made, hmadeAt, hmadeFree, rfl⟩ := makeDirectory_ok hlast
  have helsewhere : ∀ p, p ≠ place → ∀ entry, (disk.eraseBelow place).get? p = some entry →
      (disk.eraseTree place).get? p = some entry := by
    intro p hp entry hentry
    by_cases hbelow : place <+: p
    · rw [get?_eraseBelow_of_below hbelow hp] at hentry
      cases hentry
    · rw [get?_eraseBelow_of_not_below (fun hnot => hbelow hnot.1)] at hentry
      rw [get?_eraseTree_of_not_below hbelow, hentry]
  -- If the place were taken again, the path would still lead there, and nothing could be made.
  have hfree : base.get? place = none := by
    rcases hget : base.get? place with _ | entry
    · rfl
    exfalso
    have hdirectory : base.get? place = some .directory := by
      by_cases hroot : place = []
      · rw [hroot, get?_root]
      rcases hgrown.view place with hsame | ⟨-, hdirectory, -⟩
      · rw [hget, get?_eraseTree_of_below (List.prefix_refl _) hroot] at hsame
        cases hsame
      · exact hdirectory
    have hext : Extended (disk.eraseBelow place) base := by
      intro p entry hp
      by_cases hat : p = place
      · rw [hat, hdirectory'] at hp
        cases hp
        exact ⟨_, hat ▸ hdirectory, rfl⟩
      · exact hgrown.extended p entry (helsewhere p hat entry hp)
    have hagain := locate_kept hext hlocate'
    rw [hmadeAt] at hagain
    cases hagain
    rw [hmadeFree] at hdirectory
    cases hdirectory
  have hplace : place ≠ [] := by
    rintro rfl
    rw [get?_root] at hfree
    cases hfree
  have hvanished : Vanished place (disk.eraseBelow place) (disk.eraseTree place) :=
    ⟨fun p entry hp hentry => helsewhere p hp entry hentry,
      get?_eraseTree_of_below (List.prefix_refl _) hplace disk⟩
  have hvanished' : Vanished place (disk.eraseBelow place) base := by
    refine ⟨fun p entry hp hentry => ?_, hfree⟩
    have hold := helsewhere p hp entry hentry
    rcases hgrown.view p with hsame | ⟨hnone, -, -⟩
    · exact hsame.trans hold
    · rw [hold] at hnone
      cases hnone
  -- Where the path leads does not depend on what has come since.
  rcases walk_vanished (.inl rfl) hwalk with hall | hall
  · have hlocated := locate_of_walk hgivable (hall _ hvanished')
    have hbefore := locate_of_walk hgivable (hall _ hvanished)
    have hsame : base = disk.eraseTree place := by
      refine hdirect ?_
      rw [makeDirectory_of_free hbefore hvanished.gone]
      rintro ⟨⟩
    rw [hmadeAt] at hlocated
    cases hlocated
    refine ⟨place, base, ⟨hgrown, hsound, hmadeAt, hfree, .inr hdirectory, fun p hp => ?_,
      fun _ => hsame⟩, rfl⟩
    rw [hlocate] at hp
    exact (Except.ok.inj hp).symm
  · obtain ⟨-, hled⟩ := walk_of_locate hmadeAt
    rw [hall _ hvanished'] at hled
    cases hled

/-- A directory that was not there is made, with those above it. -/
theorem cleared_of_missing [Interpreter] {disk left : Disk} {path : Path} (h : disk.Sound)
    (hmade : disk.makeDirectories false path = (.ok (), left)) :
    ∃ place base, Cleared path place disk base ∧ left = base.put place .directory := by
  obtain ⟨base, hgrown, hsound, hlast, hdirect⟩ := makeDirectories_ok h hmade
  obtain ⟨place, hlocate, hfree, rfl⟩ := makeDirectory_ok hlast
  have hfree' : disk.get? place = none := by
    rcases hgrown.view place with hsame | ⟨hnone, -, -⟩
    · exact hsame ▸ hfree
    · exact hnone
  have herased := h.eraseTree_of_free hfree'
  have hsame : ∀ p, disk.locate false path = .ok p → p = place := by
    intro p hp
    have hkept := locate_kept hgrown.extended hp
    rw [hlocate] at hkept
    exact (Except.ok.inj hkept).symm
  refine ⟨place, base, ⟨herased.symm ▸ hgrown, hsound, hlocate, hfree, .inl hfree', hsame, ?_⟩, rfl⟩
  rintro (htaken | hled)
  · exact absurd hfree' htaken
  · rw [herased]
    refine hdirect ?_
    rw [makeDirectory_of_free hled hfree']
    rintro ⟨⟩

namespace Cleared

variable {path : Path} {place : Place} {disk base other : Disk}

/-- The place is not the root. -/
theorem ne_root (h : Cleared path place disk base) : place ≠ [] := by
  rintro rfl
  have hfree := h.free
  rw [get?_root] at hfree
  cases hfree

/-- The disk on which the directory has been made is sound. -/
theorem sound_put (h : Cleared path place disk base) : (base.put place .directory).Sound := by
  obtain ⟨parent, name, rfl, hparent⟩ := h.sound.locate_parent h.located h.free
  exact h.sound.put hparent h.free _

/-- The new directory is found under its path. -/
theorem find_put (h : Cleared path place disk base) :
    (base.put place .directory).find false path = .ok (place, .directory) :=
  find_put_directory h.located h.free

/-- The new directory is empty. -/
theorem empty (h : Cleared path place disk base) {p : Place} (hbelow : place <+: p)
    (hp : p ≠ place) : (base.put place .directory).get? p = none := by
  obtain ⟨rest, rfl⟩ := hbelow
  rw [get?_put_of_ne hp]
  exact h.sound.below (by rw [h.free]; simp) (by simpa using hp)

/-- On a disk that differs from one with a directory only there, the directory is cleared to the
same disk. -/
theorem matching (h : Cleared path place disk base) {place' : Place} {base' : Disk}
    (h' : Cleared path place' other base') (hdisk : disk.Sound) (hother : other.Sound)
    (hprevious : disk.get? place ≠ none) (hsame : SameOutside place disk other) :
    place' = place ∧ Matching base base' := by
  have hmatching := hsame.matching hdisk hother
  have hbase := h.direct (.inl hprevious)
  have hled : other.locate false path = .ok place := by
    refine locate_kept (extended_eraseTree other h.ne_root) ?_
    rw [locate_congr hmatching.view, ← hbase]
    exact h.located
  obtain rfl := h'.same place hled
  have hbase' := h'.direct (.inr hled)
  rw [hbase, hbase']
  exact ⟨rfl, hmatching⟩

section Again

variable (h : Cleared path place disk base) {final : Disk} (hfinal : final.Sound)
  (hdirectory : final.get? place = some .directory)
  (hsame : SameOutside place (base.put place .directory) final)
include h hsame

/-- What was there when the directory was made is there still. -/
theorem extended_final : Extended base final := by
  intro p entry hp
  have hbelow := h.sound.not_below_of_free h.free hp
  have hne : p ≠ place := fun heq => hbelow (heq ▸ List.prefix_refl _)
  exact ⟨entry, by rw [hsame.view p hbelow, get?_put_of_ne hne, hp], rfl⟩

include hdirectory

/-- The directory is still found under its path. -/
theorem find_final : final.find false path = .ok (place, .directory) :=
  find_eq_ok.2 ⟨locate_kept (h.extended_final hsame) h.located, hdirectory⟩

/-- The directory can be removed again, unless what it holds now is too deep. -/
theorem removeTree_final [Interpreter] (hshallow : final.Shallow Interpreter.removing place) :
    final.removeTree path = (.ok (), final.eraseTree place) := by
  refine removeTree_of_emptied (h.find_final hdirectory hsame) hshallow ?_
    (h.sound.last_of_free h.located h.free)
  refine find_eq_ok.2 ⟨locate_kept ?_ h.located, ?_⟩
  · intro p entry hp
    have hbelow := h.sound.not_below_of_free h.free hp
    obtain ⟨entry', hentry', hseen⟩ := h.extended_final hsame p entry hp
    exact ⟨entry', by rw [get?_eraseBelow_of_not_below (fun hnot => hbelow hnot.1), hentry'], hseen⟩
  · rw [get?_eraseBelow_of_not_below (by simp), hdirectory]

omit hdirectory

/-- The directory can be made again in the same place. -/
theorem makeDirectories_final [Interpreter] : (final.eraseTree place).makeDirectories false path =
    (.ok (), (final.eraseTree place).put place .directory) := by
  have hext : Extended base (final.eraseTree place) := by
    intro p entry hp
    have hbelow := h.sound.not_below_of_free h.free hp
    obtain ⟨entry', hentry', hseen⟩ := h.extended_final hsame p entry hp
    exact ⟨entry', by rw [get?_eraseTree_of_not_below hbelow, hentry'], hseen⟩
  have hmade := makeDirectory_of_free (locate_kept hext h.located)
    (get?_eraseTree_of_below (List.prefix_refl _) h.ne_root final)
  rw [makeDirectories, makeDirectoriesWith.eq_def, hmade]

include hfinal

/-- The disk with the directory made anew matches the one with the directory made before. -/
theorem matching_final :
    Matching (base.put place .directory) ((final.eraseTree place).put place .directory) := by
  have hbase : SameOutside place base final := by
    refine ⟨fun p hp => ?_, fun p q hp hq => ?_⟩
    · have hne : p ≠ place := fun heq => hp (heq ▸ List.prefix_refl _)
      rw [hsame.view p hp, get?_put_of_ne hne]
    · rw [hsame.sharers p q hp hq, h.sound.sharers_put (by simp [h.free])]
  have hmatching := hbase.matching h.sound hfinal
  rw [h.sound.eraseTree_of_free h.free] at hmatching
  obtain ⟨parent, name, rfl, hparent⟩ := h.sound.locate_parent h.located h.free
  exact matching_carried.put hmatching hparent h.free _

end Again

end Cleared

end ProviderKit.Disk
