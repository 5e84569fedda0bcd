import ProviderKit.Proofs.Disk.Names
import ProviderKit.Proofs.Install.Neighbours

/-!
# What making a release's directory anew changes

A release whose name has no slash has its directory in that of all releases. Making it anew changes
what is there, and nothing else but that the directory of all releases comes if it was missing
(`freshen_changes`); so it is also when making it fails half-way. The argument is about any two
plain names behind a path that leads to a directory.
-/

namespace ProviderKit

namespace Disk

variable {disk middle left : Disk} {host : Path} {root place : Place} {top name : Text}

/-- A path that leads to a directory leads to one as far as it is followed. -/
theorem Enters.along (h : Enters disk host place) (n : Nat) :
    ∃ p, Enters disk (ancestor host n) p := by
  have hread : readNames host =
      readNames (ancestor host n) ++ (host.names.drop n).map Utf8.canonical := by
    unfold readNames ancestor
    rw [← List.map_append, List.take_append_drop]
  by_cases hrest : (host.names.drop n).map Utf8.canonical = []
  · rw [hrest, List.append_nil] at hread
    exact ⟨place, hread ▸ h.arrives, h.directory⟩
  have hwalk := h.arrives
  rw [hread] at hwalk
  obtain ⟨-, -, p, harrives, hdirectory, -⟩ := walk_append hrest hwalk
  exact ⟨p, harrives, hdirectory⟩

/-- Where a path that leads to a directory comes by, nothing is free. -/
theorem Enters.along_taken (h : Enters disk host place) {n : Nat}
    (hgivable : IsGivable (ancestor host n)) :
    ∃ p entry, disk.find false (ancestor host n) = .ok (p, entry) := by
  obtain ⟨p, henters⟩ := h.along n
  exact henters.taken hgivable

/-- A path comes by where the path above it does, and where it leads itself. -/
theorem ancestor_child (path : Path) (name : Text) (n : Nat) :
    ancestor (path.child name) n = ancestor path n ∨
      ancestor (path.child name) n = path.child name := by
  by_cases hn : n ≤ path.names.length
  · refine .inl ?_
    unfold ancestor Path.child
    rw [List.take_append_of_le_length hn]
  · refine .inr ?_
    unfold ancestor
    rw [List.take_of_length_le]
    rw [Path.child, List.length_append, List.length_singleton]
    omega

/-- A path with a plain name more leads into the directory that the path leads to. -/
theorem locate_of_child {path : Path} {q : Place} (hname : IsPlain (Utf8.canonical name))
    (h : disk.locate false (path.child name) = .ok q) :
    ∃ place, disk.locate true path = .ok place ∧ Enters disk path place ∧
      q = place ++ [Utf8.canonical name] := by
  obtain ⟨place, henters, rfl⟩ := locate_child_eq hname h
  have hgivable := isGivable_parent (walk_of_locate h).1
  rw [Path.parent_child] at hgivable
  exact ⟨place, locate_of_walk hgivable henters.arrives, henters, rfl⟩

/-- The last directory along a path is made, if at all, on the disk as it was or with those above.
-/
theorem makeDirectories_last [Interpreter] {mayExist : Bool} {path : Path}
    {outcome : Except Fault Unit} (h : disk.makeDirectories mayExist path = (outcome, left)) :
    ∃ middle, (middle = disk ∨
        ∃ levels, middle = (makeDirectoriesWith levels disk true path.parent).2) ∧
      (left = middle ∨ middle.makeDirectory path = .ok left) := by
  unfold makeDirectories at h
  rw [makeDirectoriesWith.eq_def] at h
  rcases hfirst : disk.makeDirectory path with fault | made
  all_goals rw [hfirst] at h; dsimp only at h
  · split at h
    · rcases hlevels : Interpreter.making with _ | levels
      all_goals rw [hlevels] at h; dsimp only at h
      · exact ⟨disk, .inl rfl, .inl (by cases h; rfl)⟩
      rcases habove : makeDirectoriesWith levels disk true path.parent with ⟨fault' | _, middle⟩
      all_goals
        rw [habove] at h
        dsimp only at h
        refine ⟨middle, .inr ⟨levels, by rw [habove]⟩, ?_⟩
      · cases h
        exact .inl rfl
      · split at h
        next made hmade => exact .inr (by cases h; exact hmade)
        next => split at h <;> cases h <;> exact .inl rfl
    · refine ⟨disk, .inl rfl, .inl ?_⟩
      split at h <;> cases h <;> rfl
  · exact ⟨disk, .inl rfl, .inr (by cases h; exact hfirst)⟩

/-- What the second disk shows otherwise is at or below a name in the directory that a path leads to
on the first, or it is this directory, which has come. -/
def ChangedUnder (path : Path) (name : Text) (disk left : Disk) : Prop :=
  ∀ q, left.get? q ≠ disk.get? q → ∃ place, disk.locate true path = .ok place ∧
    (place ++ [Utf8.canonical name] <+: q ∨
      q = place ∧ disk.get? q = none ∧ left.get? q = some .directory)

section Nested

variable (hhost : Enters disk host root) (htop : IsPlain (Utf8.canonical top))
include hhost htop

/-- Directories that have come on the way to a name behind the path of a directory are one at most:
the one of this name. -/
theorem Enters.above_of_grown
    (hgrown : Grown (fun p => ∃ n, p = ancestor (host.child top) n) disk middle) (q : Place) :
    middle.get? q = disk.get? q ∨
      q = root ++ [Utf8.canonical top] ∧ disk.get? q = none ∧ middle.get? q = some .directory ∧
        disk.locate true (host.child top) = .ok q := by
  rcases hgrown.view q with hsame | ⟨hfree, hcame, path, ⟨n, rfl⟩, hlocate⟩
  · exact .inl hsame
  refine .inr ?_
  rcases ancestor_child host top n with hancestor | hancestor
  · -- Where the path of the directory comes by, everything was taken.
    rw [hancestor] at hlocate
    obtain ⟨p, entry, hfind⟩ := hhost.along_taken (walk_of_locate hlocate).1
    obtain ⟨hold, htaken⟩ := find_eq_ok.1 hfind
    have hsame := locate_kept hgrown.extended hold
    rw [hlocate] at hsame
    rw [← Except.ok.inj hsame, hfree] at htaken
    cases htaken
  · rw [hancestor] at hlocate
    obtain rfl := (hhost.extended hgrown.extended).locate_child htop (by simp) hlocate
    have hled := hhost.locate_name htop (Install.short_of_locate_child htop hlocate)
      (walk_of_locate hlocate).1
    obtain ⟨hgivable, hwalk⟩ := walk_of_locate hled
    exact ⟨rfl, hfree, hcame, locate_of_walk hgivable (walk_through (by simp [hfree]) hwalk)⟩

/-- Where a name behind leads, when no more than that directory has come. -/
theorem Enters.locate_nested {name : Text} (hname : IsPlain (Utf8.canonical name))
    (hext : Extended disk middle)
    (habove : ∀ q, middle.get? q = disk.get? q ∨
      q = root ++ [Utf8.canonical top] ∧ disk.get? q = none ∧ middle.get? q = some .directory ∧
        disk.locate true (host.child top) = .ok q)
    (hlocate : middle.locate false ((host.child top).child name) = .ok place) :
    ∃ releases, disk.locate true (host.child top) = .ok releases ∧
      place = releases ++ [Utf8.canonical name] := by
  obtain ⟨releases, hmiddle, henters, rfl⟩ := locate_of_child hname hlocate
  have hgivable := (walk_of_locate hmiddle).1
  refine ⟨releases, ?_, rfl⟩
  by_cases hall : ∀ q, middle.get? q = disk.get? q
  · rwa [locate_congr hall] at hmiddle
  push Not at hall
  obtain ⟨q, hnew⟩ := hall
  obtain ⟨rfl, -, hcame, hled⟩ := (habove q).resolve_left hnew
  -- The directory of the name has come, and the path leads there now.
  obtain ⟨p, entry, hfind⟩ := henters.taken hgivable
  obtain ⟨hshort, -⟩ := find_eq_ok.1 hfind
  have hthere := (hhost.extended hext).locate_name htop (Install.short_of_locate_child htop hshort)
    hgivable
  have hthrough := walk_through (by simp [hcame]) (walk_of_locate hthere).2
  rw [henters.arrives] at hthrough
  rw [Except.ok.inj hthrough, hled]

/-- Making a name behind one changes what is there, and that one may come. -/
theorem Enters.makeDirectories_changes [Interpreter] {name : Text}
    (hname : IsPlain (Utf8.canonical name)) (hwf : disk.WellFormed) :
    ChangedUnder (host.child top) name disk
      (disk.makeDirectories false ((host.child top).child name)).2 := by
  intro q hchanged
  rcases hmade : disk.makeDirectories false ((host.child top).child name) with ⟨outcome, left⟩
  rw [hmade] at hchanged
  obtain ⟨middle, hmiddle, hlast⟩ := makeDirectories_last hmade
  rw [Path.parent_child] at hmiddle
  have hgrown : Grown (fun p => ∃ n, p = ancestor (host.child top) n) disk middle := by
    rcases hmiddle with rfl | ⟨levels, rfl⟩
    · exact .refl hwf
    · exact makeDirectoriesWith_grown levels hwf _ _
  have habove := hhost.above_of_grown htop hgrown
  rcases hlast with rfl | hlast
  · obtain ⟨rfl, hfree, hcame, hled⟩ := (habove q).resolve_left hchanged
    exact ⟨_, hled, .inr ⟨rfl, hfree, hcame⟩⟩
  · obtain ⟨place, hlocate, -, rfl⟩ := makeDirectory_ok hlast
    obtain ⟨releases, hled, rfl⟩ :=
      hhost.locate_nested htop hname hgrown.extended habove hlocate
    by_cases hq : q = releases ++ [Utf8.canonical name]
    · exact ⟨releases, hled, .inl (hq ▸ List.prefix_refl _)⟩
    · dsimp only at hchanged ⊢
      rw [get?_put_of_ne hq] at hchanged ⊢
      obtain ⟨rfl, hfree, hcame, hled'⟩ := (habove q).resolve_left hchanged
      exact ⟨_, hled', .inr ⟨rfl, hfree, hcame⟩⟩

/-- Before a directory that has been cleared is made, its place is free, and nothing else has come
but the directory above it. -/
theorem Enters.cleared_nested {name : Text} (hname : IsPlain (Utf8.canonical name))
    (hsound : disk.Sound) (hcleared : Cleared ((host.child top).child name) place disk middle) :
    (∃ releases, disk.locate true (host.child top) = .ok releases ∧
      place = releases ++ [Utf8.canonical name]) ∧
    ∀ q, ¬ place <+: q → middle.get? q = disk.get? q ∨
      q = root ++ [Utf8.canonical top] ∧ disk.get? q = none ∧ middle.get? q = some .directory ∧
        disk.locate true (host.child top) = .ok q := by
  by_cases htaken : disk.get? place = none
  · have hgrown := hcleared.grown
    rw [hsound.eraseTree_of_free htaken] at hgrown
    have habove : Grown (fun p => ∃ n, p = Disk.ancestor (host.child top) n) disk middle := by
      refine ⟨fun q => ?_, hgrown.sharers, hgrown.wellFormed⟩
      rcases hgrown.view q with hsame | ⟨hfree, hcame, path, ⟨n, rfl⟩, hlocate⟩
      · exact .inl hsame
      rcases ancestor_child (host.child top) name n with habove | hlast
      · exact .inr ⟨hfree, hcame, _, ⟨n, habove⟩, hlocate⟩
      · rw [hlast, hcleared.located] at hlocate
        rw [← Except.ok.inj hlocate, hcleared.free] at hcame
        cases hcame
    have hchanges := hhost.above_of_grown htop habove
    exact ⟨hhost.locate_nested htop hname hgrown.extended hchanges hcleared.located,
      fun q _ => hchanges q⟩
  · have hmiddle := hcleared.direct (.inl htaken)
    refine ⟨hhost.locate_nested htop hname (fun p entry hp => ⟨entry, hp, rfl⟩) (fun _ => .inl rfl)
      (locate_kept (hmiddle ▸ extended_eraseTree disk hcleared.ne_root) hcleared.located),
      fun q hq => .inl ?_⟩
    rw [hmiddle, get?_eraseTree_of_not_below hq]

end Nested

/-- What removing a tree changes is at or below the place of the tree. -/
theorem removeTree_changed [Interpreter] {path : Path} {q : Place}
    (h : (disk.removeTree path).2.get? q ≠ disk.get? q) :
    ∃ place, disk.find false path = .ok (place, .directory) ∧ place <+: q := by
  rcases hfind : disk.find false path with fault | ⟨place, entry⟩
  · unfold removeTree at h
    rw [hfind] at h
    exact absurd rfl h
  cases entry with
  | directory =>
    refine ⟨place, rfl, ?_⟩
    by_contra hout
    exact h (removeTree_elsewhere (enters_of_find hfind) hout)
  | file =>
    unfold removeTree at h
    rw [hfind] at h
    exact absurd rfl h
  | link =>
    unfold removeTree at h
    rw [hfind] at h
    dsimp only at h
    split at h <;> exact absurd rfl h

/-- Where a tree has been removed that its path led to also when it was empty, making the directory
again changes that one place at most. -/
theorem remade_elsewhere [Interpreter] {path : Path} (hsound : disk.Sound) (hroot : place ≠ [])
    (hempty : (disk.eraseBelow place).find false path = .ok (place, .directory)) {q : Place}
    (hq : q ≠ place) : ((disk.eraseTree place).makeDirectories false path).2.get? q =
      (disk.eraseTree place).get? q := by
  generalize hleft : ((disk.eraseTree place).makeDirectories false path).2 = left
  have hgrown := makeDirectories_grown (hsound.eraseTree place).toWellFormed false path
  rw [hleft] at hgrown
  have hdirectory := (find_eq_ok.1 hempty).2
  rcases hgrown.view q with hsame | ⟨hfree, hcame, above, ⟨n, rfl⟩, hlocate⟩
  · exact hsame
  exfalso
  obtain ⟨p, entry, hfind⟩ :=
    (enters_of_find hempty).along_taken (walk_of_locate hlocate).1
  obtain ⟨hled, htaken⟩ := find_eq_ok.1 hfind
  have hemptied : ∀ r, r ≠ place →
      (disk.eraseBelow place).get? r = (disk.eraseTree place).get? r := by
    intro r hr
    by_cases hbelow : place <+: r
    · rw [get?_eraseBelow_of_below hbelow hr, get?_eraseTree_of_below hbelow hroot]
    · rw [get?_eraseBelow_of_not_below (fun hnot => hbelow hnot.1),
        get?_eraseTree_of_not_below hbelow]
  have hkept : ∀ r entry, r ≠ place → (disk.eraseBelow place).get? r = some entry →
      left.get? r = some entry := by
    intro r entry hr hentry
    rw [hemptied r hr] at hentry
    rcases hgrown.view r with hsame | ⟨hnone, -⟩
    · exact hsame.trans hentry
    · rw [hentry] at hnone
      cases hnone
  have hqp : q ≠ p := by
    rintro rfl
    rw [hemptied q hq, hfree] at htaken
    cases htaken
  -- Whether the directory is there again or not, the path comes by where it did.
  rcases hgrown.view place with hgone | ⟨-, hthere, -⟩
  · rw [get?_eraseTree_of_below (List.prefix_refl _) hroot] at hgone
    have hvanished : Vanished place (disk.eraseBelow place) left :=
      ⟨fun r entry hr hentry => hkept r entry hr hentry, hgone⟩
    obtain ⟨-, hwalk⟩ := walk_of_locate hlocate
    have hnolink : ∀ target, (disk.eraseBelow place).get? place ≠ some (.link target) := by
      simp [hdirectory]
    rcases walk_vanished (.inr ⟨hnolink, by simp [htaken]⟩) (walk_of_locate hled).2 with hall | hall
    all_goals
      rw [hall _ hvanished] at hwalk
      cases hwalk
    exact hqp rfl
  · have hext : Extended (disk.eraseBelow place) left := by
      intro r entry hr
      by_cases hat : r = place
      · rw [hat, hdirectory] at hr
        cases hr
        exact ⟨_, hat ▸ hthere, rfl⟩
      · exact ⟨entry, hkept r entry hat hr, rfl⟩
    have hsame := locate_kept hext hled
    rw [hlocate] at hsame
    exact hqp (Except.ok.inj hsame)

end Disk

namespace Install

/-- However making a directory anew ends, it has been made, removed, or removed and made. -/
theorem freshen_cases [Interpreter] (directory : Path) (w : World) {left : Disk}
    (h : ((freshen directory).perform w).2.disk = left) :
    left = w.disk ∨ left = (w.disk.makeDirectories false directory).2 ∨
      left = (w.disk.removeTree directory).2 ∨
      ∃ emptied, w.disk.removeTree directory = (.ok (), emptied) ∧
        left = (emptied.makeDirectories false directory).2 := by
  unfold freshen at h
  rw [Run.perform_bind, Run.perform_look] at h
  rcases hthere : w.disk.exists? directory with fault | there
  · rw [hthere] at h
    exact .inl h.symm
  rw [hthere] at h
  dsimp only [orFail] at h
  cases there with
  | false =>
    rw [if_neg Bool.false_ne_true, Run.perform_requests] at h
    exact .inr (.inl h.symm)
  | true =>
    rw [if_pos rfl, Run.perform_bind_ok _ (Run.perform_say _ _), Run.perform_bind,
      Run.perform_requests] at h
    rcases hremoved : w.disk.removeTree directory with ⟨fault | ⟨⟩, emptied⟩
    all_goals
      dsimp only at h
      rw [hremoved] at h
      dsimp only [orFail] at h
    · exact .inr (.inr (.inl h.symm))
    · rw [Run.perform_requests] at h
      exact .inr (.inr (.inr ⟨emptied, rfl, h.symm⟩))

/-- Making the directory of a release anew changes what is there, and the directory of all releases
may come. -/
theorem freshen_changes [Interpreter] {host : Path} {root : Place} {name version : Text} {w : World}
    (hsound : w.disk.Sound) (hhost : w.disk.find true host = .ok (root, .directory))
    (hname : .char '/' ∉ name) (hversion : .char '/' ∉ version) :
    Disk.ChangedUnder (host.child pluginsName) (pluginDirectoryName name version) w.disk
      ((freshen (pluginDirectory host name version)).perform w).2.disk := by
  have henters : Disk.Enters w.disk host root := by
    obtain ⟨hlocate, hdirectory⟩ := Disk.find_eq_ok.1 hhost
    exact ⟨(Disk.walk_of_locate hlocate).2, hdirectory⟩
  have htop : Disk.IsPlain (Utf8.canonical pluginsName) := Disk.isPlain_canonical (by decide)
  have hplain := isPlain_pluginDirectoryName name version
  have hmade := henters.makeDirectories_changes htop hplain hsound.toWellFormed
  rw [pluginDirectory_child hname hversion]
  generalize pluginDirectoryName name version = release at *
  have hremoves : ∀ place q, w.disk.find false ((host.child pluginsName).child release) =
      .ok (place, .directory) → place <+: q → ∃ releases,
        w.disk.locate true (host.child pluginsName) = .ok releases ∧
          releases ++ [Utf8.canonical release] <+: q := by
    intro place q hfind hq
    obtain ⟨releases, hled, rfl⟩ := henters.locate_nested htop hplain
      (fun p entry hp => ⟨entry, hp, rfl⟩) (fun _ => .inl rfl) (Disk.find_eq_ok.1 hfind).1
    exact ⟨releases, hled, hq⟩
  generalize hleft : ((freshen ((host.child pluginsName).child release)).perform w).2.disk = left
  intro q hchanged
  rcases freshen_cases _ w hleft with rfl | rfl | rfl | ⟨emptied, hremoved, rfl⟩
  · exact absurd rfl hchanged
  · exact hmade q hchanged
  · obtain ⟨place, hfind, hbelow⟩ := Disk.removeTree_changed hchanged
    obtain ⟨releases, hled, hbelow⟩ := hremoves place q hfind hbelow
    exact ⟨releases, hled, .inl hbelow⟩
  · obtain ⟨place, hfind, hempty, rfl⟩ := Disk.removeTree_eq hremoved
    have hroot : place ≠ [] := by
      rintro rfl
      obtain ⟨releases, -, hnil⟩ := hremoves [] [] hfind List.nil_prefix
      simp at hnil
    obtain ⟨releases, hled, hbelow⟩ := hremoves place q hfind (by
      by_contra hq
      have hne : q ≠ place := fun heq => hq (heq ▸ List.prefix_refl _)
      rw [Disk.remade_elsewhere hsound hroot hempty hne,
        Disk.get?_eraseTree_of_not_below hq] at hchanged
      exact hchanged rfl)
    exact ⟨releases, hled, .inl hbelow⟩

end Install

end ProviderKit
