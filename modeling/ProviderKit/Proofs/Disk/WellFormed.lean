import ProviderKit.Proofs.Disk.Walk

/-!
# Well-formed disks

On a well-formed disk every entry stands in a directory, and only files are shared. The changes that
the requests are made of keep it so, each at the places where the requests use it. On such a disk a
walk that ends at a free place ends in a directory, and there is nothing below a place where no
directory is.
-/

namespace ProviderKit.Disk

/-- Every entry stands in a directory, and only files are shared. -/
structure WellFormed (disk : Disk) : Prop where
  parent : ∀ p name entry, disk.get? (p ++ [name]) = some entry → disk.get? p = some .directory
  shared : ∀ group ∈ disk.shared, ∀ p ∈ group,
    ∃ mode content, disk.get? p = some (.file mode content)

namespace WellFormed

variable {disk : Disk}

/-- Nothing is below a place where no directory is. -/
theorem below (h : disk.WellFormed) {place : Place} (hplace : disk.get? place ≠ some .directory)
    {rest : Place} (hrest : rest ≠ []) : disk.get? (place ++ rest) = none := by
  induction rest generalizing place with
  | nil => exact absurd rfl hrest
  | cons name rest ih =>
    have hnext : disk.get? (place ++ [name]) = none := by
      rcases hget : disk.get? (place ++ [name]) with _ | entry
      · rfl
      · exact absurd (h.parent _ _ _ hget) hplace
    rcases rest with _ | ⟨next, rest⟩
    · exact hnext
    · rw [List.append_cons]
      exact ih (by rw [hnext]; simp) (List.cons_ne_nil _ _)

/-- Where nothing stands at a place, no entry is at or below it. -/
theorem not_below_of_free (h : disk.WellFormed) {place q : Place} {entry : Entry}
    (hfree : disk.get? place = none) (hq : disk.get? q = some entry) : ¬ place <+: q := by
  rintro ⟨rest, rfl⟩
  by_cases hrest : rest = []
  · rw [hrest, List.append_nil, hfree] at hq
    cases hq
  · rw [h.below (by simp [hfree]) hrest] at hq
    cases hq

/-- All that is above a directory is one. -/
theorem directory_above (h : disk.WellFormed) {place q : Place}
    (hplace : disk.get? place = some .directory) (habove : q <+: place) :
    disk.get? q = some .directory := by
  obtain ⟨rest, rfl⟩ := habove
  by_cases hrest : rest = []
  · rwa [hrest, List.append_nil] at hplace
  · refine Classical.byContradiction fun hnot => ?_
    rw [h.below hnot hrest] at hplace
    cases hplace

/-- The directory that an entry stands in. -/
theorem dropLast (h : disk.WellFormed) {place : Place} {entry : Entry}
    (hget : disk.get? place = some entry) : disk.get? place.dropLast = some .directory := by
  rcases List.eq_nil_or_concat place with rfl | ⟨parent, name, rfl⟩
  · rfl
  · rw [List.concat_eq_append] at hget ⊢
    rw [List.dropLast_concat]
    exact h.parent _ _ _ hget

/-- The places that share a file with a place other than itself are files. -/
theorem file_of_mem_sharers (h : disk.WellFormed) {place q : Place} (hq : q ∈ disk.sharers place)
    (hne : q ≠ place) : ∃ mode content, disk.get? q = some (.file mode content) := by
  rcases sharers_eq disk place with halone | hgroup
  · rw [halone, List.mem_singleton] at hq
    exact absurd hq hne
  · exact h.shared _ hgroup q hq

/-- Where there is no file, nothing is shared. -/
theorem sharers_of_no_file (h : disk.WellFormed) {place : Place}
    (hplace : ∀ mode content, disk.get? place ≠ some (.file mode content)) :
    disk.sharers place = [place] := by
  rcases sharers_eq disk place with halone | hgroup
  · exact halone
  · obtain ⟨mode, content, hfile⟩ := h.shared _ hgroup place (mem_sharers_self disk place)
    exact absurd hfile (hplace mode content)

/-- A new entry at a place where there was no file changes nothing about what is shared. -/
theorem sharers_put (h : disk.WellFormed) {place : Place}
    (hplace : ∀ mode content, disk.get? place ≠ some (.file mode content))
    (entry : Entry) (q : Place) : (disk.put place entry).sharers q = disk.sharers q := by
  by_cases hq : q = place
  · rw [hq, sharers_put_self, h.sharers_of_no_file hplace]
  · rw [sharers_put_of_ne hq, List.filter_eq_self]
    intro p hp
    rw [bne_iff_ne]
    rintro rfl
    obtain ⟨mode, content, hfile⟩ := h.file_of_mem_sharers hp (Ne.symm hq)
    exact hplace mode content hfile

/-- A walk that ends at a free place ends in a directory. -/
theorem walk_parent (h : disk.WellFormed) {through : Bool} {links : Nat} {here p : Place}
    {names : List Text} (hhere : disk.get? here = some .directory)
    (hwalk : walk disk through links here names = .ok p) (hfree : disk.get? p = none) :
    ∃ parent name, p = parent ++ [name] ∧ disk.get? parent = some .directory := by
  have htaken : disk.get? here ≠ none := by simp [hhere]
  clear hhere
  rw [walk_eq_ok] at hwalk
  induction hwalk with
  | arrived => exact absurd hfree htaken
  | dot _ _ ih => exact ih htaken
  | up hhere _ ih => exact ih (by simp [h.dropLast hhere])
  | free hlooks _ hp => exact ⟨_, _, hp, hlooks.directory⟩
  | stop hlooks _ _ hp => exact ⟨_, _, hp, hlooks.directory⟩
  | follow hlooks _ _ _ ih => exact ih (by simp [get?_targetStart hlooks.directory])
  | down _ hentry _ _ ih => exact ih (by simp [hentry])

/-- A path to a free place leads into a directory. -/
theorem locate_parent (h : disk.WellFormed) {through : Bool} {path : Path} {place : Place}
    (hlocate : disk.locate through path = .ok place) (hfree : disk.get? place = none) :
    ∃ parent name, place = parent ++ [name] ∧ disk.get? parent = some .directory :=
  h.walk_parent rfl (walk_of_locate hlocate).2 hfree

/-- A disk stays well-formed when an entry comes to a free place in a directory. -/
theorem put (h : disk.WellFormed) {parent : Place} {name : Text}
    (hparent : disk.get? parent = some .directory) (hfree : disk.get? (parent ++ [name]) = none)
    (entry : Entry) : (disk.put (parent ++ [name]) entry).WellFormed := by
  have hext := extended_put hfree entry
  constructor
  · intro p last e hp
    by_cases heq : p ++ [last] = parent ++ [name]
    · obtain ⟨rfl, -⟩ := List.append_inj' heq rfl
      exact hext.directory hparent
    · rw [get?_put_of_ne heq] at hp
      exact hext.directory (h.parent _ _ _ hp)
  · intro group hgroup p hp
    obtain ⟨before, hbefore, rfl⟩ := List.mem_map.1 hgroup
    rw [List.mem_filter, bne_iff_ne] at hp
    rw [get?_put_of_ne hp.2]
    exact h.shared before hbefore p hp.1

/-- A disk stays well-formed when a file is rewritten. -/
theorem rewrite (h : disk.WellFormed) {place : Place} {mode : Mode} {content : Content}
    (hfile : disk.get? place = some (.file mode content)) (mode' : Mode)
    (content' : Content) : (disk.rewrite place (.file mode' content')).WellFormed := by
  have hfiles : ∀ q ∈ disk.sharers place, ∃ x c, disk.get? q = some (.file x c) := by
    intro q hq
    by_cases hne : q = place
    · exact ⟨mode, content, hne ▸ hfile⟩
    · exact h.file_of_mem_sharers hq hne
  have hview : ∀ q entry, disk.get? q = some entry →
      (∃ x c, (disk.rewrite place (.file mode' content')).get? q = some (.file x c)) ∧
        (∃ x c, entry = .file x c) ∨
      (disk.rewrite place (.file mode' content')).get? q = some entry := by
    intro q entry hq
    by_cases hroot : q = []
    · rw [hroot, get?_root] at hq ⊢
      exact .inr hq
    rw [get?_rewrite hroot]
    by_cases hmem : q ∈ disk.sharers place
    · rw [if_pos hmem]
      obtain ⟨x, c, hx⟩ := hfiles q hmem
      rw [hx] at hq
      cases hq
      exact .inl ⟨⟨_, _, rfl⟩, x, c, rfl⟩
    · rw [if_neg hmem]
      exact .inr hq
  constructor
  · intro p name entry hp
    have hold : ∃ e, disk.get? (p ++ [name]) = some e := by
      rw [get?_rewrite (by simp)] at hp
      split at hp
      next hmem =>
        obtain ⟨x, c, hx⟩ := hfiles _ hmem
        exact ⟨_, hx⟩
      next => exact ⟨entry, hp⟩
    obtain ⟨e, he⟩ := hold
    rcases hview p _ (h.parent _ _ _ he) with ⟨-, x, c, hdirectory⟩ | hsame
    · cases hdirectory
    · exact hsame
  · intro group hgroup p hp
    obtain ⟨x, c, hx⟩ := h.shared group hgroup p hp
    rcases hview p _ hx with ⟨hnow, -⟩ | hsame
    · exact hnow
    · exact ⟨x, c, hsame⟩

/-- A disk stays well-formed when something other than a directory goes. -/
theorem erase (h : disk.WellFormed) {place : Place} (hplace : disk.get? place ≠ some .directory) :
    (disk.erase place).WellFormed := by
  have hne : place ≠ [] := by
    rintro rfl
    exact hplace (get?_root disk)
  constructor
  · intro p name entry hp
    by_cases heq : p ++ [name] = place
    · rw [heq, get?_erase_self hne] at hp
      cases hp
    rw [get?_erase_of_ne heq] at hp
    have hdirectory := h.parent _ _ _ hp
    rw [get?_erase_of_ne, hdirectory]
    rintro rfl
    exact hplace hdirectory
  · intro group hgroup p hp
    obtain ⟨before, hbefore, rfl⟩ := List.mem_map.1 hgroup
    rw [List.mem_filter, bne_iff_ne] at hp
    rw [get?_erase_of_ne hp.2]
    exact h.shared before hbefore p hp.1

end WellFormed

/-- Whether every listed entry stands in a directory, and only files are shared. -/
def isWellFormed (disk : Disk) : Bool :=
  disk.entries.all (fun (p, _) => (disk.get? p.dropLast).any Entry.isDirectory) &&
    disk.shared.all (·.all fun p => (disk.get? p).any Entry.isFile)

/-- An entry that is found is listed. -/
theorem mem_of_find? {place : Place} {entry : Entry} {entries : List (Place × Entry)}
    (h : find? place entries = some entry) : (place, entry) ∈ entries := by
  induction entries with
  | nil => cases h
  | cons head rest ih =>
    obtain ⟨p, e⟩ := head
    rw [find?] at h
    split at h
    next heq =>
      cases h
      rw [heq]
      exact List.mem_cons_self
    next => exact List.mem_cons_of_mem _ (ih h)

/-- Whether the entries below a place pass a check, each under the names that lead there. -/
def allBelow (disk : Disk) (place : Place) (check : Place → Entry → Bool) : Bool :=
  (([], .directory) :: disk.entries).all fun (p, entry) =>
    !place.isPrefixOf p || check (p.drop place.length) entry

/-- What has been checked of all entries below a place is so for each of them. -/
theorem of_allBelow {disk : Disk} {place : Place} {check : Place → Entry → Bool}
    (h : disk.allBelow place check = true) {x : Place} {entry : Entry}
    (hget : disk.get? (place ++ x) = some entry) : check x entry = true := by
  have hlisted : (place ++ x, entry) ∈ ([], .directory) :: disk.entries := by
    by_cases hroot : place ++ x = []
    · rw [hroot, get?_root] at hget
      cases hget
      rw [hroot]
      exact List.mem_cons_self
    · rw [get?_of_ne_root hroot] at hget
      exact List.mem_cons_of_mem _ (mem_of_find? hget)
  have hcheck := List.all_eq_true.1 h _ hlisted
  have hbelow : place.isPrefixOf (place ++ x) = true :=
    List.isPrefixOf_iff_prefix.2 (List.prefix_append _ _)
  dsimp only at hcheck
  rwa [hbelow, List.drop_left, Bool.not_true, Bool.false_or] at hcheck

/-- A disk can be checked to be well-formed. -/
theorem wellFormed_of_check {disk : Disk} (h : disk.isWellFormed = true) : disk.WellFormed := by
  rw [isWellFormed, Bool.and_eq_true, List.all_eq_true, List.all_eq_true] at h
  obtain ⟨hentries, hshared⟩ := h
  constructor
  · intro p name entry hp
    rw [get?_of_ne_root (by simp)] at hp
    have hparent := hentries _ (mem_of_find? hp)
    dsimp only at hparent
    rw [List.dropLast_concat, Option.any_eq_true] at hparent
    obtain ⟨parent, hget, hdirectory⟩ := hparent
    cases parent with
    | directory => exact hget
    | file => cases hdirectory
    | link => cases hdirectory
  · intro group hgroup p hp
    have hfile := List.all_eq_true.1 (hshared group hgroup) p hp
    rw [Option.any_eq_true] at hfile
    obtain ⟨entry, hget, hfile⟩ := hfile
    cases entry with
    | file mode content => exact ⟨mode, content, hget⟩
    | directory => cases hfile
    | link => cases hfile

end ProviderKit.Disk
