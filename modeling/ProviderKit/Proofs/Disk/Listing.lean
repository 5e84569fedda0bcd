import ProviderKit.Proofs.Disk.Alike
import ProviderKit.Proofs.Text.Order

/-!
# What is listed below a place

`Disk.below` lists every entry below a place once, under the names that lead to it from there
(`mem_below`, `nodup_below`), and a directory before what is in it (`mem_of_above`). A place is
`Shallow` if none of them is too many levels below it (`deeper?_eq_none`).
-/

namespace ProviderKit.Disk

/-! ## Lists in order -/

section InOrder

variable {α : Type} {le : α → α → Bool}

/-- An item is put into a list, and the others stay. -/
theorem insertInOrder_perm (item : α) (items : List α) :
    (insertInOrder le item items).Perm (item :: items) := by
  induction items with
  | nil => exact List.Perm.refl _
  | cons other items ih =>
    rw [insertInOrder]
    split
    · exact List.Perm.refl _
    · exact (ih.cons other).trans (List.Perm.swap item other items)

/-- A list in order has the items that it had. -/
theorem inOrder_perm (items : List α) : (inOrder le items).Perm items := by
  induction items with
  | nil => exact List.Perm.refl _
  | cons item items ih => exact (insertInOrder_perm item _).trans (ih.cons item)

variable (htotal : ∀ a b, le a b = true ∨ le b a = true)
  (htrans : ∀ a b c, le a b = true → le b c = true → le a c = true)
include htotal htrans

/-- An item is put where it belongs. -/
theorem pairwise_insertInOrder (item : α) {items : List α}
    (h : items.Pairwise fun a b => le a b = true) :
    (insertInOrder le item items).Pairwise fun a b => le a b = true := by
  induction items with
  | nil => exact List.pairwise_singleton _ _
  | cons other items ih =>
    obtain ⟨hother, hitems⟩ := List.pairwise_cons.1 h
    rw [insertInOrder]
    split
    next hle =>
      refine List.pairwise_cons.2 ⟨fun a ha => ?_, h⟩
      rcases List.mem_cons.1 ha with rfl | ha
      · exact hle
      · exact htrans _ _ _ hle (hother a ha)
    next hnot =>
      refine List.pairwise_cons.2 ⟨fun a ha => ?_, ih hitems⟩
      rcases List.mem_cons.1 ((insertInOrder_perm item items).mem_iff.1 ha) with rfl | ha
      · exact (htotal _ _).resolve_left hnot
      · exact hother a ha

/-- A list in order is in order. -/
theorem pairwise_inOrder (items : List α) :
    (inOrder le items).Pairwise fun a b => le a b = true := by
  induction items with
  | nil => exact List.Pairwise.nil
  | cons item items ih => exact pairwise_insertInOrder htotal htrans item ih

end InOrder

/-! ## The order of places -/

/-- Of two places one comes before the other. -/
theorem placeLe_total (p q : Place) : placeLe p q = true ∨ placeLe q p = true := by
  induction p generalizing q with
  | nil => exact .inl rfl
  | cons a p ih =>
    cases q with
    | nil => exact .inr rfl
    | cons b q =>
      rw [placeLe, placeLe]
      by_cases hab : a = b
      · rw [if_pos hab, if_pos hab.symm]
        exact ih q
      · rw [if_neg hab, if_neg (Ne.symm hab)]
        exact Text.le_total a b

/-- A place comes before what comes after a later one. -/
theorem placeLe_trans {p q r : Place} (h : placeLe p q = true) (h' : placeLe q r = true) :
    placeLe p r = true := by
  induction p generalizing q r with
  | nil => rfl
  | cons a p ih =>
    cases q with
    | nil => cases h
    | cons b q =>
      cases r with
      | nil => cases h'
      | cons c r =>
        rw [placeLe] at h h' ⊢
        by_cases hab : a = b
        · subst hab
          rw [if_pos rfl] at h
          by_cases hac : a = c
          · rw [if_pos hac] at h' ⊢
            exact ih h h'
          · rw [if_neg hac] at h' ⊢
            exact h'
        · rw [if_neg hab] at h
          by_cases hbc : b = c
          · rw [if_neg (hbc ▸ hab), ← hbc]
            exact h
          · rw [if_neg hbc] at h'
            -- A name that comes before another one does not come after it.
            have hac : a ≠ c := by
              rintro rfl
              exact hab (Text.le_antisymm h h')
            rw [if_neg hac]
            exact Text.le_trans h h'

/-- Places that come before each other are one. -/
theorem placeLe_antisymm {p q : Place} (h : placeLe p q = true) (h' : placeLe q p = true) :
    p = q := by
  induction p generalizing q with
  | nil =>
    cases q with
    | nil => rfl
    | cons => cases h'
  | cons a p ih =>
    cases q with
    | nil => cases h
    | cons b q =>
      rw [placeLe] at h h'
      by_cases hab : a = b
      · subst hab
        rw [if_pos rfl] at h h'
        rw [ih h h']
      · rw [if_neg hab] at h
        rw [if_neg (Ne.symm hab)] at h'
        exact absurd (Text.le_antisymm h h') hab

/-- A place comes before what lies below it, and not after. -/
theorem not_placeLe_of_above {p q : Place} (h : p <+: q) (hne : p ≠ q) : placeLe q p = false := by
  obtain ⟨rest, rfl⟩ := h
  induction p with
  | nil =>
    cases rest with
    | nil => exact absurd rfl hne
    | cons => rfl
  | cons a p ih =>
    rw [List.cons_append, placeLe, if_pos rfl]
    exact ih fun heq => hne (congrArg (a :: ·) heq)

/-! ## The entries below a place -/

variable {disk : Disk} {place x y : Place} {entry entry' : Entry}

/-- The entries below a place, in no order. -/
theorem below_perm (disk : Disk) (place : Place) :
    (disk.below place).Perm (disk.entries.filterMap fun (p, entry) =>
      if place.isPrefixOf p && p != place then some (p.drop place.length, entry) else none) :=
  inOrder_perm _

/-- An entry that is listed is one of the disk's. -/
theorem mem_entries_of_mem_below (h : (x, entry) ∈ disk.below place) :
    x ≠ [] ∧ (place ++ x, entry) ∈ disk.entries := by
  obtain ⟨⟨p, e⟩, hmem, heq⟩ := List.mem_filterMap.1 ((below_perm disk place).mem_iff.1 h)
  dsimp only at heq
  split at heq
  next hbelow =>
    rw [Bool.and_eq_true, List.isPrefixOf_iff_prefix, bne_iff_ne] at hbelow
    obtain ⟨⟨rest, rfl⟩, hne⟩ := hbelow
    rw [List.drop_left] at heq
    cases heq
    exact ⟨by simpa using hne, hmem⟩
  next => cases heq

/-- An entry that is listed is seen. -/
theorem get?_of_mem_below (h : (x, entry) ∈ disk.below place) :
    ∃ seen, disk.get? (place ++ x) = some seen := by
  obtain ⟨hx, hmem⟩ := mem_entries_of_mem_below h
  rw [get?_of_ne_root (by simp [hx])]
  exact exists_find? hmem

/-- An entry that is seen below a place is listed. -/
theorem exists_mem_below (h : disk.get? (place ++ x) = some entry) (hx : x ≠ []) :
    ∃ listed, (x, listed) ∈ disk.below place := by
  rw [get?_of_ne_root (by simp [hx])] at h
  refine ⟨entry, (below_perm disk place).mem_iff.2
    (List.mem_filterMap.2 ⟨_, mem_of_find? h, ?_⟩)⟩
  have hbelow : place.isPrefixOf (place ++ x) = true :=
    List.isPrefixOf_iff_prefix.2 (List.prefix_append _ _)
  simp [hbelow, hx]

/-- No entry is more than the given number of levels below a place. -/
def Shallow (disk : Disk) (levels : Nat) (place : Place) : Prop :=
  ∀ names entry, disk.get? (place ++ names) = some entry → names.length ≤ levels

/-- An entry that is found too many levels below a place is there. -/
theorem deeper?_eq_some {levels : Nat} (h : disk.deeper? levels place = some x) :
    ∃ names entry, x = place ++ names ∧ levels < names.length ∧ disk.get? x = some entry := by
  obtain ⟨⟨names, entry⟩, hfound, rfl⟩ := Option.map_eq_some_iff.1 h
  obtain ⟨seen, hseen⟩ := get?_of_mem_below (List.mem_of_find?_eq_some hfound)
  exact ⟨names, seen, rfl, by simpa using List.find?_some hfound, hseen⟩

/-- No entry is found too many levels below a place just if none is there. -/
theorem deeper?_eq_none {levels : Nat} :
    disk.deeper? levels place = none ↔ disk.Shallow levels place := by
  rw [deeper?, Option.map_eq_none_iff, List.find?_eq_none]
  constructor
  · intro h names entry hget
    by_cases hnil : names = []
    · rw [hnil]
      exact Nat.zero_le _
    · obtain ⟨listed, hmem⟩ := exists_mem_below hget hnil
      simpa using h _ hmem
  · rintro h ⟨names, entry⟩ hmem
    obtain ⟨seen, hseen⟩ := get?_of_mem_below hmem
    simpa using h names seen hseen

/-- What is listed below a place are the entries below it. -/
theorem Orderly.mem_below (h : disk.Orderly) :
    (x, entry) ∈ disk.below place ↔ x ≠ [] ∧ disk.get? (place ++ x) = some entry := by
  constructor
  · intro hmem
    obtain ⟨hx, hentry⟩ := mem_entries_of_mem_below hmem
    refine ⟨hx, ?_⟩
    rw [get?_of_ne_root (by simp [hx]), find?_eq_some h.once]
    exact hentry
  · rintro ⟨hx, hget⟩
    rw [get?_of_ne_root (by simp [hx]), find?_eq_some h.once] at hget
    refine (below_perm disk place).mem_iff.2 (List.mem_filterMap.2 ⟨_, hget, ?_⟩)
    have hbelow : place.isPrefixOf (place ++ x) = true :=
      List.isPrefixOf_iff_prefix.2 (List.prefix_append _ _)
    simp [hbelow, hx]

/-- Every entry below a place is listed once. -/
theorem Orderly.nodup_below (h : disk.Orderly) (place : Place) :
    ((disk.below place).map Prod.fst).Nodup := by
  refine ((below_perm disk place).map Prod.fst).nodup_iff.2 ?_
  have hsub : (((disk.entries.filterMap fun (p, entry) =>
      if place.isPrefixOf p && p != place then some (p.drop place.length, entry) else none).map
        Prod.fst).map (place ++ ·)).Sublist (disk.entries.map Prod.fst) := by
    induction disk.entries with
    | nil => exact List.Sublist.refl _
    | cons head rest ih =>
      obtain ⟨p, e⟩ := head
      rw [List.filterMap_cons]
      dsimp only
      split
      next hnone => exact ih.cons _
      next found hfound =>
        split at hfound
        next hbelow =>
          cases hfound
          rw [Bool.and_eq_true, List.isPrefixOf_iff_prefix] at hbelow
          obtain ⟨⟨tail, rfl⟩, -⟩ := hbelow
          rw [List.map_cons, List.map_cons, List.map_cons, List.drop_left]
          exact ih.cons_cons _
        next => cases hfound
  exact (h.once.sublist hsub).of_map _

/-- The entries below a place are listed in the order of places. -/
theorem pairwise_below (disk : Disk) (place : Place) :
    (disk.below place).Pairwise fun a b => placeLe a.1 b.1 = true :=
  pairwise_inOrder (fun a b : Place × Entry => placeLe_total a.1 b.1)
    (fun _ _ _ => placeLe_trans) _

/-- An entry is listed after the one that it is below. -/
theorem mem_of_above {before after : List (Place × Entry)}
    (hlist : disk.below place = before ++ (x, entry) :: after)
    (hmem : (y, entry') ∈ disk.below place)
    (habove : y <+: x) (hne : y ≠ x) : (y, entry') ∈ before := by
  have hordered := pairwise_below disk place
  rw [hlist] at hmem hordered
  rcases List.mem_append.1 hmem with hbefore | hrest
  · exact hbefore
  rcases List.mem_cons.1 hrest with heq | hafter
  · exact absurd (congrArg Prod.fst heq) hne
  · have hle := (List.pairwise_cons.1 (List.pairwise_append.1 hordered).2.1).1 _ hafter
    rw [not_placeLe_of_above habove hne] at hle
    cases hle

/-- A list of the entries below a place, each by the names that lead to it from there: each entry is
listed once, and after those above it. -/
structure Lists (disk : Disk) (place : Place) (listing : List (Place × Entry)) : Prop where
  mem : ∀ x entry, (x, entry) ∈ listing ↔ x ≠ [] ∧ disk.get? (place ++ x) = some entry
  nodup : (listing.map Prod.fst).Nodup
  above : ∀ before x entry after, listing = before ++ (x, entry) :: after →
    ∀ y entry', (y, entry') ∈ listing → y <+: x → y ≠ x → (y, entry') ∈ before

/-- What lies below a place is listed so. -/
theorem Orderly.lists_below {disk : Disk} (h : disk.Orderly) (place : Place) :
    Lists disk place (disk.below place) :=
  ⟨fun _ _ => h.mem_below, h.nodup_below place,
    fun _ _ _ _ hlist _ _ hmem habove hne => mem_of_above hlist hmem habove hne⟩

end ProviderKit.Disk
