import ProviderKit.Disk.Basic

/-!
# What the changes of a disk do to its view

A disk is seen through `Disk.get?`. Each way to change its entries is described once by what is seen
at a place afterwards, so that nothing else opens the list of entries.
-/

namespace ProviderKit.Disk

/-- The root is always a directory. -/
@[simp]
theorem get?_root (disk : Disk) : disk.get? [] = some .directory := rfl

/-- Away from the root the first entry listed for a place is seen there. -/
theorem get?_of_ne_root {place : Place} (h : place ≠ []) (disk : Disk) :
    disk.get? place = find? place disk.entries := if_neg h

/-- Where an entry is listed one is found. -/
theorem exists_find? {place : Place} {entry : Entry} {entries : List (Place × Entry)}
    (h : (place, entry) ∈ entries) : ∃ found, find? place entries = some found := by
  induction entries with
  | nil => cases h
  | cons head rest ih =>
    rw [find?]
    split
    · exact ⟨_, rfl⟩
    next hne =>
      rcases List.mem_cons.1 h with rfl | hrest
      · exact absurd rfl hne
      · exact ih hrest

/-- The entries with a new one at a place hold it there and are as before elsewhere. -/
theorem find?_setEntry (p q : Place) (entry : Entry) (entries : List (Place × Entry)) :
    find? q (setEntry p entry entries) = if q = p then some entry else find? q entries := by
  induction entries with
  | nil =>
    simp only [setEntry, find?]
    grind
  | cons head rest ih =>
    obtain ⟨r, e⟩ := head
    by_cases hr : r = p
    · subst hr
      simp only [setEntry, if_true, find?]
      grind
    · simp only [setEntry, if_neg hr, find?, ih]
      grind

/-- The entries at the places with a property are found at those places only. -/
theorem find?_filter (stays : Place → Bool) (q : Place) (entries : List (Place × Entry)) :
    find? q (entries.filter fun (p, _) => stays p) =
      if stays q then find? q entries else none := by
  induction entries with
  | nil => simp [find?]
  | cons head rest ih =>
    obtain ⟨p, e⟩ := head
    by_cases hp : stays p <;> by_cases hq : p = q <;> simp_all [find?]

/-- A new entry is seen at its place. -/
theorem get?_put_self {place : Place} (h : place ≠ []) (disk : Disk) (entry : Entry) :
    (disk.put place entry).get? place = some entry := by
  rw [get?_of_ne_root h, put, find?_setEntry, if_pos rfl]

/-- A new entry is not seen at other places. -/
theorem get?_put_of_ne {place q : Place} (h : q ≠ place) (disk : Disk) (entry : Entry) :
    (disk.put place entry).get? q = disk.get? q := by
  unfold get?
  rw [put, find?_setEntry, if_neg h]

/-- A place is seen as before if its entry stays, and as free otherwise. -/
theorem get?_keep {place : Place} (h : place ≠ []) (disk : Disk) (stays : Place → Bool) :
    (disk.keep stays).get? place = if stays place then disk.get? place else none := by
  rw [get?_of_ne_root h, get?_of_ne_root h, keep, find?_filter]

/-- An erased entry is not seen any more. -/
theorem get?_erase_self {place : Place} (h : place ≠ []) (disk : Disk) :
    (disk.erase place).get? place = none := by
  rw [erase, get?_keep h, if_neg (by simp)]

/-- The entries at other places stay. -/
theorem get?_erase_of_ne {place q : Place} (h : q ≠ place) (disk : Disk) :
    (disk.erase place).get? q = disk.get? q := by
  by_cases hq : q = []
  · rw [hq, get?_root, get?_root]
  · rw [erase, get?_keep hq, if_pos (by simpa using h)]

/-- Nothing is seen below a place whose tree is emptied. -/
theorem get?_eraseBelow_of_below {place q : Place} (h : place <+: q) (hne : q ≠ place)
    (disk : Disk) : (disk.eraseBelow place).get? q = none := by
  have hq : q ≠ [] := by
    rintro rfl
    exact hne (List.prefix_nil.1 h).symm
  rw [eraseBelow, get?_keep hq, if_neg]
  simpa [List.isPrefixOf_iff_prefix] using ⟨h, hne⟩

/-- Away from what is below a place everything stays when its tree is emptied. -/
theorem get?_eraseBelow_of_not_below {place q : Place} (h : ¬(place <+: q ∧ q ≠ place))
    (disk : Disk) : (disk.eraseBelow place).get? q = disk.get? q := by
  by_cases hq : q = []
  · rw [hq, get?_root, get?_root]
  · rw [eraseBelow, get?_keep hq, if_pos]
    simp only [Bool.or_eq_true, Bool.not_eq_true', beq_iff_eq]
    by_cases hp : place <+: q
    · exact .inr (Classical.byContradiction fun hne => h ⟨hp, hne⟩)
    · refine .inl (Bool.eq_false_iff.2 fun htrue => hp ?_)
      exact List.isPrefixOf_iff_prefix.1 htrue

/-- Away from a place everything stays when what is below it goes up to an entry. -/
theorem get?_eraseUpTo_of_not_below {place q : Place} (h : ¬ place <+: q) (disk : Disk)
    (entry : Place) : (disk.eraseUpTo place entry).get? q = disk.get? q := by
  by_cases hq : q = []
  · rw [hq, get?_root, get?_root]
  · rw [eraseUpTo, get?_keep hq, if_pos]
    have hnot : place.isPrefixOf q = false :=
      Bool.eq_false_iff.2 fun htrue => h (List.isPrefixOf_iff_prefix.1 htrue)
    rw [hnot]
    rfl

/-- The way to an entry stays when what comes before the entry goes. -/
theorem get?_eraseUpTo_of_leading {place q entry : Place} (h : q <+: entry) (disk : Disk) :
    (disk.eraseUpTo place entry).get? q = disk.get? q := by
  by_cases hq : q = []
  · rw [hq, get?_root, get?_root]
  · rw [eraseUpTo, get?_keep hq, if_pos]
    rw [List.isPrefixOf_iff_prefix.2 h]
    simp

/-! ## Sharing -/

/-- A place shares its file with itself. -/
theorem mem_sharers_self (disk : Disk) (place : Place) : place ∈ disk.sharers place := by
  unfold sharers
  rcases h : disk.shared.find? (·.contains place) with _ | group
  · rw [h]
    exact List.mem_singleton_self place
  · rw [h]
    simpa using List.find?_some h

/-- The places that share a file with a place are that place alone, or a group of the disk. -/
theorem sharers_eq (disk : Disk) (place : Place) :
    disk.sharers place = [place] ∨ disk.sharers place ∈ disk.shared := by
  unfold sharers
  rcases h : disk.shared.find? (·.contains place) with _ | group
  · rw [h]
    exact .inl rfl
  · rw [h]
    exact .inr (List.mem_of_find?_eq_some h)

/-- When only the entries at the places with a property are left, a place shares with those of the
places that it shared with before; a place without the property shares with none. -/
theorem sharers_filter (disk : Disk) {other : Disk} (stays : Place → Bool)
    (h : other.shared = disk.shared.map (·.filter stays)) (place : Place) :
    other.sharers place =
      if stays place then (disk.sharers place).filter stays else [place] := by
  have hcontains : ∀ group : List Place,
      (group.filter stays).contains place = (stays place && group.contains place) := by
    intro group
    rw [Bool.eq_iff_iff]
    simp [and_comm]
  unfold sharers
  rw [h, List.find?_map]
  simp only [Function.comp_def, hcontains]
  cases hstays : stays place with
  | true =>
    simp only [Bool.true_and, if_true]
    rcases hfind : disk.shared.find? (·.contains place) with _ | group
    · rw [hfind]
      simp [hstays]
    · rw [hfind]
      rfl
  | false =>
    have hnone : disk.shared.find? (fun _ => false) = none := List.find?_eq_none.2 (by simp)
    simp [hnone]

/-- Of the places that share a file those are left at which the entries are left. -/
theorem sharers_keep (disk : Disk) (stays : Place → Bool) (place : Place) :
    (disk.keep stays).sharers place =
      if stays place then (disk.sharers place).filter stays else [place] :=
  sharers_filter disk stays rfl place

/-- A new entry is shared with no other place. -/
theorem sharers_put_self (disk : Disk) (place : Place) (entry : Entry) :
    (disk.put place entry).sharers place = [place] := by
  rw [sharers_filter disk (· != place) rfl, if_neg (by simp)]

/-- A new entry shares with no other place what those share among each other. -/
theorem sharers_put_of_ne {place q : Place} (h : q ≠ place) (disk : Disk) (entry : Entry) :
    (disk.put place entry).sharers q = (disk.sharers q).filter (· != place) := by
  rw [sharers_filter disk (· != place) rfl, if_pos (by simpa using h)]

/-- Entries that are set at several places are found at those, and the others stay. -/
theorem find?_setEntries (places : List Place) (q : Place) (entry : Entry)
    (entries : List (Place × Entry)) :
    find? q (places.foldl (fun entries p => setEntry p entry entries) entries) =
      if q ∈ places then some entry else find? q entries := by
  induction places generalizing entries with
  | nil => simp
  | cons p places ih =>
    rw [List.foldl_cons, ih, find?_setEntry]
    grind

/-- A file that is rewritten is seen at all places that share it, and the others stay. -/
theorem get?_rewrite {q : Place} (h : q ≠ []) (disk : Disk) (place : Place) (entry : Entry) :
    (disk.rewrite place entry).get? q =
      if q ∈ disk.sharers place then some entry else disk.get? q := by
  rw [get?_of_ne_root h, get?_of_ne_root h]
  exact find?_setEntries _ _ _ _

/-- A second name that a file gets changes nothing at other places. -/
theorem get?_share_of_ne {second q : Place} (h : q ≠ second) (disk : Disk) (place : Place)
    (entry : Entry) : (disk.share place second entry).get? q = disk.get? q := by
  unfold get?
  rw [share, find?_setEntry, if_neg h]

/-- Rewriting a file changes nothing about what is shared. -/
@[simp]
theorem sharers_rewrite (disk : Disk) (place q : Place) (entry : Entry) :
    (disk.rewrite place entry).sharers q = disk.sharers q := rfl

/-! ## Moving -/

/-- The place that a place is at once everything at and below another one has been moved. -/
def movedTo (origin place p : Place) : Place :=
  if origin.isPrefixOf p then place ++ p.drop origin.length else p

/-- A place that is moved is at or below the target, and another one stays. -/
theorem movedTo_eq_iff (origin : Place) {place q : Place} (h : ¬ place <+: q) (p : Place) :
    movedTo origin place p = q ↔ p = q ∧ ¬ origin <+: p := by
  unfold movedTo
  by_cases hp : origin <+: p
  · rw [if_pos (List.isPrefixOf_iff_prefix.2 hp)]
    constructor
    · rintro rfl
      exact absurd (List.prefix_append _ _) h
    · rintro ⟨-, hnot⟩
      exact absurd hp hnot
  · rw [if_neg (by simpa [List.isPrefixOf_iff_prefix] using hp)]
    exact ⟨fun heq => ⟨heq, hp⟩, fun heq => heq.1⟩

/-- Away from the target the entries stay, but those that are moved are gone. -/
theorem get?_move_elsewhere {origin place q : Place} (horigin : origin ≠ []) (h : ¬ place <+: q)
    (disk : Disk) :
    (disk.move origin place).get? q = if origin <+: q then none else disk.get? q := by
  by_cases hq : q = []
  · rw [hq, get?_root, if_neg (by simpa using horigin), get?_root]
  rw [get?_of_ne_root hq, get?_of_ne_root hq, move]
  simp only
  induction disk.entries with
  | nil => simp [find?]
  | cons head rest ih =>
    obtain ⟨p, entry⟩ := head
    have hmoved := movedTo_eq_iff origin h p
    simp only [List.map_cons, find?]
    change (if movedTo origin place p = q then some entry else _) = _
    by_cases hp : p = q
    · subst hp
      by_cases hbelow : origin <+: p
      · rw [if_neg (fun heq => (hmoved.1 heq).2 hbelow), ih, if_pos hbelow, if_pos hbelow]
      · rw [if_pos (hmoved.2 ⟨rfl, hbelow⟩), if_neg hbelow, if_pos rfl]
    · rw [if_neg (fun heq => hp (hmoved.1 heq).1), ih, if_neg hp]

/-- What is moved to or below the target stood at or below the origin, or there already. -/
theorem movedTo_eq_append_iff (origin : Place) {place p rest : Place} (h : p ≠ place ++ rest) :
    movedTo origin place p = place ++ rest ↔ p = origin ++ rest := by
  unfold movedTo
  by_cases hp : origin <+: p
  · rw [if_pos (List.isPrefixOf_iff_prefix.2 hp)]
    obtain ⟨tail, rfl⟩ := hp
    simp
  · rw [if_neg (by simpa [List.isPrefixOf_iff_prefix] using hp)]
    constructor
    · exact fun heq => absurd heq h
    · rintro rfl
      exact absurd (List.prefix_append _ _) hp

/-- What was moved is seen at and below the target. -/
theorem get?_move_target {origin place : Place} (hplace : place ≠ []) (horigin : origin ≠ [])
    {disk : Disk} {rest : Place} (hfree : disk.get? (place ++ rest) = none) :
    (disk.move origin place).get? (place ++ rest) = disk.get? (origin ++ rest) := by
  have hto : place ++ rest ≠ [] := by simp [hplace]
  rw [get?_of_ne_root hto] at hfree ⊢
  rw [get?_of_ne_root (by simp [horigin]), move]
  simp only
  revert hfree
  induction disk.entries with
  | nil => simp [find?]
  | cons head entries ih =>
    obtain ⟨p, entry⟩ := head
    intro hfree
    simp only [find?] at hfree
    split at hfree
    · cases hfree
    next hp =>
    have hmoved := movedTo_eq_append_iff origin hp
    simp only [List.map_cons, find?]
    change (if movedTo origin place p = place ++ rest then some entry else _) = _
    by_cases heq : p = origin ++ rest
    · rw [if_pos (hmoved.2 heq), if_pos heq]
    · rw [if_neg (fun h => heq (hmoved.1 h)), ih hfree, if_neg heq]

end ProviderKit.Disk
