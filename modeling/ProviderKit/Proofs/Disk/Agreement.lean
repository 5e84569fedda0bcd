import ProviderKit.Proofs.Disk.Placing

/-!
# Disks that agree

Two disks agree when they show the same wherever both show something: from one to the other entries
may have come and gone, but none has become another. A path that leads to something on both of them
leads to the same place (`walk_agrees`), so a file that can be read on both is the same
(`read_agrees`).
-/

namespace ProviderKit.Disk

/-- Where both disks show something they show the same. -/
def Agrees (disk other : Disk) : Prop :=
  ∀ p entry entry', disk.get? p = some entry → other.get? p = some entry' → entry = entry'

variable {disk other : Disk}

/-- A plain name of a walk that arrives at something leads to something. -/
theorem Walks.taken {through : Bool} {links : Nat} {here p : Place} {name : Text}
    {rest : List Text} (h : Walks disk through p links here (name :: rest)) (hplain : IsPlain name)
    (hp : disk.get? p ≠ none) : disk.get? (here ++ [name]) ≠ none := by
  cases h with
  | dot => exact absurd rfl hplain.1
  | up => exact absurd rfl hplain.2
  | free _ hfree hend => exact absurd hfree (hend ▸ hp)
  | stop _ hlink => simp [hlink]
  | follow _ hlink => simp [hlink]
  | down _ hentry => simp [hentry]

/-- A walk that arrives at something on both disks arrives at the same place. -/
theorem walk_agrees (hagree : Agrees disk other) {through : Bool} {links : Nat} {here p q : Place}
    {names : List Text} (hwalk : walk disk through links here names = .ok p)
    (hp : disk.get? p ≠ none) (hwalk' : walk other through links here names = .ok q)
    (hq : other.get? q ≠ none) : p = q := by
  -- Both disks show the same behind a plain name, so both walks go on in the same way.
  have hshown : ∀ {links here name rest entry}, LooksUp disk here name →
      disk.get? (here ++ [name]) = some entry →
      walk other through links here (name :: rest) = .ok q →
      LooksUp other here name ∧ other.get? (here ++ [name]) = some entry := by
    intro links here name rest entry hlooks hentry h
    have hwalks := walk_eq_ok.1 h
    obtain ⟨entry', hentry'⟩ := Option.ne_none_iff_exists'.1 (hwalks.taken hlooks.plain hq)
    rw [hagree _ _ _ hentry hentry']
    exact ⟨{ hlooks with directory := hwalks.directory }, hentry'⟩
  rw [walk_eq_ok] at hwalk
  induction hwalk with
  | arrived =>
    rw [walk_eq_ok] at hwalk'
    cases hwalk'
    rfl
  | dot _ _ ih =>
    rw [walk_dot (walk_eq_ok.1 hwalk').directory] at hwalk'
    exact ih hwalk'
  | up _ _ ih =>
    rw [walk_up (walk_eq_ok.1 hwalk').directory] at hwalk'
    exact ih hwalk'
  | free _ hfree hend => exact absurd hfree (hend ▸ hp)
  | stop hlooks hlink hstays hend =>
    obtain ⟨hlooks', hlink'⟩ := hshown hlooks hlink hwalk'
    rw [hstays, walk_stop hlooks' hlink'] at hwalk'
    rw [hend]
    exact Except.ok.inj hwalk'
  | follow hlooks hlink hmore _ ih =>
    obtain ⟨hlooks', hlink'⟩ := hshown hlooks hlink hwalk'
    rw [walk_follow hlooks' hlink' hmore] at hwalk'
    exact ih hwalk'
  | down hlooks hentry hnolink _ ih =>
    obtain ⟨hlooks', hentry'⟩ := hshown hlooks hentry hwalk'
    rw [walk_down hlooks' hentry' hnolink] at hwalk'
    exact ih hwalk'

/-- A file that a path leads to on both disks is the same. -/
theorem read_agrees (hagree : Agrees disk other) {path : Path} {content content' : Content}
    (hread : disk.read path = .ok content) (hread' : other.read path = .ok content') :
    content = content' := by
  obtain ⟨p, mode, hfind⟩ := read_eq_ok.1 hread
  obtain ⟨q, mode', hfind'⟩ := read_eq_ok.1 hread'
  obtain ⟨hlocate, hp⟩ := find_eq_ok.1 hfind
  obtain ⟨hlocate', hq⟩ := find_eq_ok.1 hfind'
  obtain rfl := walk_agrees hagree (walk_of_locate hlocate).2 (by simp [hp])
    (walk_of_locate hlocate').2 (by simp [hq])
  have hsame := hagree p _ _ hp hq
  cases hsame
  rfl

end ProviderKit.Disk
