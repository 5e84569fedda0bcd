import ProviderKit.Proofs.Disk.Directory
import ProviderKit.Proofs.Disk.Parts
import ProviderKit.Proofs.Disk.RealPath
import ProviderKit.Proofs.Disk.Renewal

/-!
# Changes inside a directory

Entries come to free places, files are written, shared and removed, all at or below one place inside
a directory. What that leaves of the rest of the disk is said once (`Within`), with a lemma for each
kind of change. Where a change takes place is told by a walk: `Stays` says that names, followed from
the directory any part of the way, lead at or below the place wherever an entry can be made, written
or removed. That stays true when a directory is made on the way (`Stays.put`) and when the entry at
the end is removed (`Stays.erase`).
-/

namespace ProviderKit.Disk

/-! ## What requests have done -/

section Requests

variable {disk left : Disk} {path : Path}

/-- What has been written has come to a free place, or into a file. -/
theorem write_cases {content : Content} (h : disk.write path content = .ok left) :
    ∃ q, disk.locate true path = .ok q ∧
      ((disk.get? q = none ∧ left = disk.put q (.file .usual content)) ∨
        ∃ mode old, disk.get? q = some (.file mode old) ∧
          left = disk.rewrite q (.file mode content)) := by
  unfold write at h
  split at h
  · cases h
  dsimp only [bind, Except.bind, pure, Except.pure] at h
  rcases hlocate : disk.locate true path with fault | q
  · rw [hlocate] at h
    cases h
  rw [hlocate] at h
  dsimp only at h
  refine ⟨q, rfl, ?_⟩
  rcases hget : disk.get? q with _ | _ | ⟨mode, old⟩ | target
  all_goals rw [hget] at h
  · exact .inl ⟨rfl, (Except.ok.inj h).symm⟩
  · cases h
  · exact .inr ⟨mode, old, rfl, (Except.ok.inj h).symm⟩
  · cases h

/-- What has been unlinked was no directory. -/
theorem unlink_ok (h : disk.unlink path = .ok left) :
    ∃ q entry, disk.find false path = .ok (q, entry) ∧ entry.isDirectory = false ∧
      left = disk.erase q := by
  unfold unlink at h
  dsimp only [bind, Except.bind, pure, Except.pure] at h
  rcases hfind : disk.find false path with fault | ⟨q, entry⟩
  · rw [hfind] at h
    cases h
  rw [hfind] at h
  cases entry with
  | directory => cases h
  | file => exact ⟨q, _, rfl, rfl, (Except.ok.inj h).symm⟩
  | link => exact ⟨q, _, rfl, rfl, (Except.ok.inj h).symm⟩

/-- A link that has been made is at a free place, with its target as it is read. -/
theorem makeLink_ok {target : Text} (h : disk.makeLink target path = .ok left) :
    Usable target ∧ ∃ q, disk.locate false path = .ok q ∧ disk.get? q = none ∧
      left = disk.put q (.link (Utf8.canonical target)) := by
  unfold makeLink at h
  dsimp only [bind, Except.bind, pure, Except.pure] at h
  split at h
  · cases h
  split at h
  · cases h
  split at h
  · cases h
  split at h
  · cases h
  next hencodable hnull _ _ =>
    rcases hlocate : disk.locate false path with fault | q
    · rw [hlocate] at h
      cases h
    rw [hlocate] at h
    dsimp only at h
    split at h
    · cases h
    next hfree =>
      refine ⟨⟨?_, ?_⟩, q, rfl, hfree, (Except.ok.inj h).symm⟩
      · simpa using hencodable
      · simpa using hnull

/-- A second name that has been made is at a free place: a link is there twice, a file is shared. -/
theorem makeSecondName_ok {source : Path} (h : disk.makeSecondName source path = .ok left) :
    ∃ origin q, disk.locate false path = .ok q ∧ disk.get? q = none ∧
      ((∃ target, disk.find false source = .ok (origin, .link target) ∧
          left = disk.put q (.link target)) ∨
        ∃ mode content, disk.find false source = .ok (origin, .file mode content) ∧
          left = disk.share origin q (.file mode content)) := by
  unfold makeSecondName at h
  dsimp only [bind, Except.bind, pure, Except.pure] at h
  rcases hfind : disk.find false source with fault | ⟨origin, entry⟩
  · rw [hfind] at h
    cases h
  rw [hfind] at h
  dsimp only at h
  rcases hlocate : disk.locate false path with fault | q
  · rw [hlocate] at h
    cases h
  rw [hlocate] at h
  dsimp only at h
  refine ⟨origin, q, rfl, ?_⟩
  rcases hget : disk.get? q with _ | other
  all_goals rw [hget] at h
  · cases entry with
    | directory => cases h
    | link target => exact ⟨rfl, .inl ⟨target, rfl, (Except.ok.inj h).symm⟩⟩
    | file mode content =>
      exact ⟨rfl, .inr ⟨mode, content, rfl, (Except.ok.inj h).symm⟩⟩
  · cases h

end Requests

/-! ## What changes leave -/

/-- A disk as a machine keeps it, however long the paths to its links are. -/
structure Regular (disk : Disk) : Prop extends Sound disk where
  names : ∀ p entry, disk.get? p = some entry → ∀ name ∈ p, IsName name
  targets : ∀ p target, disk.get? p = some (.link target) → IsStored target

/-- Whether a disk is as a machine keeps it. -/
def isRegular (disk : Disk) : Bool :=
  disk.isSound && disk.allBelow [] fun p entry => p.all isName && match entry with
    | .link target => decide (Usable target) && Utf8.canonical target == target
    | _ => true

/-- A disk can be checked to be as a machine keeps it. -/
theorem regular_of_check {disk : Disk} (h : disk.isRegular = true) : disk.Regular := by
  rw [isRegular, Bool.and_eq_true] at h
  refine ⟨sound_of_check h.1, fun p entry hget name hname => ?_, fun p target hget => ?_⟩
  all_goals
    have hcheck := of_allBelow h.2 hget
    rw [Bool.and_eq_true] at hcheck
  · exact isName_of_check (List.all_eq_true.1 hcheck.1 name hname)
  · simp only [Bool.and_eq_true, decide_eq_true_eq, beq_iff_eq] at hcheck
    exact ⟨hcheck.2.1, hcheck.2.2⟩

/-- A path to a directory leads to it also when more has come. -/
theorem find_directory_of_extended {disk other : Disk} (hext : Extended disk other) {path : Path}
    {place : Place} (hfound : disk.find true path = .ok (place, .directory)) :
    other.find true path = .ok (place, .directory) := by
  obtain ⟨hlocate, hdirectory⟩ := find_eq_ok.1 hfound
  have hthere := hext.directory hdirectory
  refine find_eq_ok.2 ⟨locate_of_extended hext ?_ hlocate, hthere⟩
  rw [hthere]
  rintro - _ ⟨⟩

/-- The disk has come from a base by changes at or below a place inside a directory: away from the
directory both show the same, away from the place nothing has come, gone, or become something else,
and all of the base is there. -/
structure Within (place top : Place) (base disk : Disk) : Prop where
  regular : disk.Regular
  apart : ∀ p q, place <+: p → q ∈ disk.sharers p → place <+: q
  outside : ∀ p, ¬ place <+: p → disk.get? p = base.get? p
  elsewhere : ∀ p, ¬ top <+: p → (disk.get? p).map seen = (base.get? p).map seen
  extended : Extended base disk

namespace Within

variable {place top : Place} {base disk left : Disk}

/-- At first nothing has changed. -/
theorem start (hregular : base.Regular)
    (hapart : ∀ p q, place <+: p → q ∈ base.sharers p → place <+: q) :
    Within place top base base :=
  ⟨hregular, hapart, fun _ _ => rfl, fun _ _ => rfl, fun _ entry hp => ⟨entry, hp, rfl⟩⟩

/-- Changes at places inside a directory are changes inside it. -/
theorem trans (hinside : place <+: top) (h : Within place place base disk)
    (h' : Within place top disk left) : Within place place base left := by
  refine ⟨h'.regular, h'.apart, fun p hp => ?_, fun p hp => ?_, h.extended.trans h'.extended⟩
  · rw [h'.outside p hp, h.outside p hp]
  · rw [h'.elsewhere p fun htop => hp (hinside.trans htop), h.elsewhere p hp]

/-- The directory of the base is still entered. -/
theorem enters {directory : Path} (h : Within place top base disk) {q : Place}
    (hfound : base.find true directory = .ok (q, .directory)) :
    disk.find true directory = .ok (q, .directory) :=
  find_directory_of_extended h.extended hfound

section New

variable (h : Within place top base disk) {parent : Place} {name : Text} (hinside : place <+: top)
  (hparent : disk.get? parent = some .directory) (hfree : disk.get? (parent ++ [name]) = none)
  (htop : top <+: parent ++ [name]) (hname : IsName name)
include h hinside hparent hfree htop hname

/-- A new entry is a change at its place, if what shares with what stays inside the directory. -/
theorem add {entry : Entry} (hsound : left.Sound)
    (htarget : ∀ target, entry = .link target → IsStored target)
    (hhere : left.get? (parent ++ [name]) = some entry)
    (hview : ∀ p, p ≠ parent ++ [name] → left.get? p = disk.get? p)
    (hapart : ∀ p q, place <+: p → q ∈ left.sharers p → place <+: q) :
    Within place top base left := by
  have hnames : ∀ n ∈ parent ++ [name], IsName n := by
    intro n hn
    rcases List.mem_append.1 hn with hold | hnew
    · exact h.regular.names _ _ hparent n hold
    · exact List.mem_singleton.1 hnew ▸ hname
  have hregular : left.Regular := by
    refine ⟨hsound, fun p e hp => ?_, fun p target hp => ?_⟩
    · by_cases heq : p = parent ++ [name]
      · exact heq ▸ hnames
      · exact h.regular.names p e (hview p heq ▸ hp)
    · by_cases heq : p = parent ++ [name]
      · rw [heq, hhere] at hp
        exact htarget target (Option.some.inj hp)
      · exact h.regular.targets p target (hview p heq ▸ hp)
  have helsewhere : ∀ p, ¬ top <+: p → left.get? p = disk.get? p := fun p hp =>
    hview p fun heq => hp (heq ▸ htop)
  refine ⟨hregular, hapart, fun p hp => ?_, fun p hp => ?_, h.extended.trans fun p e hp => ?_⟩
  · rw [helsewhere p fun hbelow => hp (hinside.trans hbelow), h.outside p hp]
  · rw [helsewhere p hp, h.elsewhere p hp]
  · have hne : p ≠ parent ++ [name] := by
      rintro rfl
      rw [hfree] at hp
      cases hp
    exact ⟨e, (hview p hne).trans hp, rfl⟩

/-- An entry comes to a free place. -/
theorem put {entry : Entry} (htarget : ∀ target, entry = .link target → IsStored target) :
    Within place top base (disk.put (parent ++ [name]) entry) := by
  refine h.add hinside hparent hfree htop hname (h.regular.put hparent hfree entry) htarget
    (get?_put_self (by simp) _ _) (fun _ hp => get?_put_of_ne hp _ _) fun p q hp hq => ?_
  rw [h.regular.toWellFormed.sharers_put (by simp [hfree])] at hq
  exact h.apart p q hp hq

/-- A file of the directory gets a second name at a free place. -/
theorem share {origin : Place} {mode : Mode} {content : Content} (horigin : place <+: origin)
    (hfile : disk.get? origin = some (.file mode content)) :
    Within place top base (disk.share origin (parent ++ [name]) (.file mode content)) := by
  have hentries : ∀ p, (disk.share origin (parent ++ [name]) (.file mode content)).get? p =
      (disk.put (parent ++ [name]) (.file mode content)).get? p := fun _ => rfl
  have hhere : (disk.put (parent ++ [name]) (.file mode content)).get? (parent ++ [name]) =
      some (.file mode content) := get?_put_self (by simp) _ _
  refine h.add hinside hparent hfree htop hname (h.regular.toSound.share hfile hparent hfree)
    (fun _ => Entry.noConfusion) ((hentries _).trans hhere)
    (fun _ hp => get?_share_of_ne hp _ _ _) fun p q hp hq => ?_
  rw [h.regular.toOrderly.sharers_share] at hq
  split at hq
  · rcases List.mem_append.1 hq with hold | hnew
    · exact h.apart origin q horigin hold
    · exact List.mem_singleton.1 hnew ▸ hinside.trans htop
  · exact h.apart p q hp hq

end New

/-- A file is written at and below the place, and so at all places that share it. -/
theorem rewrite (h : Within place top base disk) (hinside : place <+: top) {q : Place}
    {mode : Mode} {content : Content} (htop : top <+: q)
    (hfile : disk.get? q = some (.file mode content)) (mode' : Mode)
    (content' : Content) : Within place top base (disk.rewrite q (.file mode' content')) := by
  have hroot : ∀ p ∈ disk.sharers q, p ≠ [] := by
    rintro p hp rfl
    exact h.regular.root_not_mem_sharers hfile hp
  have hshared : ∀ p ∈ disk.sharers q, ∃ x c, disk.get? p = some (.file x c) := fun p hp =>
    h.regular.file_of_sharers hfile hp
  have hview : ∀ p, p ∉ disk.sharers q →
      (disk.rewrite q (.file mode' content')).get? p = disk.get? p := by
    intro p hp
    by_cases hnil : p = []
    · rw [hnil, get?_root, get?_root]
    · rw [get?_rewrite hnil, if_neg hp]
  have hwritten : ∀ p ∈ disk.sharers q, (disk.rewrite q (.file mode' content')).get? p =
      some (.file mode' content') := by
    intro p hp
    rw [get?_rewrite (hroot p hp), if_pos hp]
  have hseen : ∀ p, ((disk.rewrite q (.file mode' content')).get? p).map seen =
      (disk.get? p).map seen := by
    intro p
    by_cases hp : p ∈ disk.sharers q
    · obtain ⟨x, c, hold⟩ := hshared p hp
      rw [hwritten p hp, hold]
      rfl
    · rw [hview p hp]
  refine ⟨⟨h.regular.toSound.rewrite hfile _ _, fun p e hp => ?_, fun p target hp => ?_⟩,
    h.apart, fun p hp => ?_, fun p hp => ?_, h.extended.trans fun p e hp => ?_⟩
  · by_cases hmem : p ∈ disk.sharers q
    · obtain ⟨x, c, hold⟩ := hshared p hmem
      exact h.regular.names p _ hold
    · exact h.regular.names p e (hview p hmem ▸ hp)
  · by_cases hmem : p ∈ disk.sharers q
    · rw [hwritten p hmem] at hp
      cases hp
    · exact h.regular.targets p target (hview p hmem ▸ hp)
  · rw [hview p fun hmem => hp (h.apart q p (hinside.trans htop) hmem), h.outside p hp]
  · rw [hseen, h.elsewhere p hp]
  · have hsame := hseen p
    rw [hp] at hsame
    obtain ⟨e', he', hseen'⟩ := Option.map_eq_some_iff.1 hsame
    exact ⟨e', he', hseen'⟩

/-- A file or a link is removed that has come since. -/
theorem erase (h : Within place top base disk) (hinside : place <+: top)
    (hbare : ∀ q entry, top <+: q → base.get? q = some entry → entry = .directory) {q : Place}
    {entry : Entry} (htop : top <+: q) (hget : disk.get? q = some entry)
    (hentry : entry.isDirectory = false) : Within place top base (disk.erase q) := by
  have hnot : disk.get? q ≠ some .directory := by
    rw [hget]
    rintro ⟨⟩
    cases hentry
  have hview : ∀ p, p ≠ q → (disk.erase q).get? p = disk.get? p := fun p hp =>
    get?_erase_of_ne hp disk
  have hne : ∀ p e, (disk.erase q).get? p = some e → p ≠ q := by
    rintro p e hp rfl
    have hroot : p ≠ [] := by
      rintro rfl
      exact hnot rfl
    rw [get?_erase_self hroot] at hp
    cases hp
  refine ⟨⟨h.regular.toSound.erase hnot, fun p e hp => ?_, fun p target hp => ?_⟩,
    fun p r hp hr => ?_, fun p hp => ?_, fun p hp => ?_, fun p e hp => ?_⟩
  · exact h.regular.names p e (hview p (hne p e hp) ▸ hp)
  · exact h.regular.targets p target (hview p (hne p _ hp) ▸ hp)
  · rw [Disk.erase, sharers_keep] at hr
    split at hr
    · exact h.apart p r hp (List.mem_filter.1 hr).1
    · exact List.mem_singleton.1 hr ▸ hp
  · rw [hview p fun heq => hp (heq ▸ hinside.trans htop), h.outside p hp]
  · rw [hview p fun heq => hp (heq ▸ htop), h.elsewhere p hp]
  · obtain ⟨e', he', hseen⟩ := h.extended p e hp
    have hpq : p ≠ q := by
      rintro rfl
      obtain rfl := hbare p e htop hp
      exact hnot (h.extended.directory hp)
    exact ⟨e', (hview p hpq).trans he', hseen⟩

end Within

/-! ## Where names lead -/

/-- The names, followed any part of the way behind others, lead at or below a place where they come
to a free place or a file, and so does the link that all of them lead to. -/
structure Stays (top : Place) (start names : List Text) (disk : Disk) : Prop where
  beginnings : ∀ front, front <+: names → ∀ q,
    walk disk true linkLimit [] (start ++ front) = .ok q →
    (∀ entry, disk.get? q = some entry → entry.isFile = true) → top <+: q
  whole : ∀ q entry, walk disk false linkLimit [] (start ++ names) = .ok q →
    disk.get? q = some entry → entry.isDirectory = false → top <+: q

/-- From a directory that holds nothing, names without two dots lead no farther than to a free place
in it. -/
theorem walk_in_empty {disk : Disk} {q : Place}
    (hempty : ∀ name, disk.get? (q ++ [name]) = none) {through : Bool} {links : Nat}
    {names : List Text} (hup : Text.ofString ".." ∉ names) {p : Place}
    (h : walk disk through links q names = .ok p) :
    p = q ∨ ∃ name, p = q ++ [name] ∧ disk.get? p = none := by
  rw [walk_eq_ok] at h
  induction h with
  | arrived => exact .inl rfl
  | dot _ _ ih => exact ih hempty fun hmem => hup (List.mem_cons_of_mem _ hmem)
  | up => exact absurd List.mem_cons_self hup
  | free _ hfree hp => exact .inr ⟨_, hp, hp ▸ hfree⟩
  | stop _ hlink => cases (hempty _).symm.trans hlink
  | follow _ hlink => cases (hempty _).symm.trans hlink
  | down _ hentry => cases (hempty _).symm.trans hentry

namespace Stays

variable {top : Place} {start names front : List Text} {disk : Disk} {q : Place}

/-- Names that are followed part of the way and lead to a free place or a file lead inside, also
where a link at the end would not be followed. -/
theorem inside (h : Stays top start names disk) (hfront : front <+: names) {through : Bool}
    (hwalk : walk disk through linkLimit [] (start ++ front) = .ok q)
    (hloose : ∀ entry, disk.get? q = some entry → entry.isFile = true) : top <+: q := by
  cases through with
  | true => exact h.beginnings front hfront q hwalk hloose
  | false =>
    refine h.beginnings front hfront q (walk_through (fun target hlink => ?_) hwalk) hloose
    cases hloose _ hlink

/-- Names still lead inside when an entry there is removed. -/
theorem erase (h : Stays top start names disk) (htop : top <+: q) :
    Stays top start names (disk.erase q) := by
  have hext : Extended (disk.erase q) disk := by
    intro p entry hp
    by_cases heq : p = q
    · subst heq
      by_cases hroot : p = []
      · rw [hroot, get?_root] at hp ⊢
        exact ⟨entry, hp, rfl⟩
      · rw [get?_erase_self hroot] at hp
        cases hp
    · exact ⟨entry, (get?_erase_of_ne heq disk).symm.trans hp, rfl⟩
  -- A walk elsewhere goes as it did before.
  have hbefore : ∀ {through names p}, p ≠ q →
      walk (disk.erase q) through linkLimit [] names = .ok p →
      walk disk through linkLimit [] names = .ok p := by
    intro through names p hne hwalk
    refine walk_kept hext (fun _ hfree target hlink => ?_) hwalk
    rw [get?_erase_of_ne hne, hlink] at hfree
    cases hfree
  refine ⟨fun front hfront p hwalk hloose => ?_, fun p entry hwalk hentry hnot => ?_⟩
  all_goals by_cases hne : p = q
  · exact hne ▸ htop
  · refine h.beginnings front hfront p (hbefore hne hwalk) fun entry hentry => hloose entry ?_
    rw [get?_erase_of_ne hne, hentry]
  · exact hne ▸ htop
  · exact h.whole p entry (hbefore hne hwalk) (get?_erase_of_ne hne disk ▸ hentry) hnot

/-- Names still lead inside when a directory is made where a part of them leads, if they do not go
up. -/
theorem put (h : Stays top start names disk) (hwf : disk.WellFormed)
    (hup : Text.ofString ".." ∉ names) (hfront : front <+: names)
    (hwalk : walk disk false linkLimit [] (start ++ front) = .ok q) (hfree : disk.get? q = none) :
    Stays top start names (disk.put q .directory) := by
  have hroot : q ≠ [] := by
    rintro rfl
    cases hfree
  have hmade : (disk.put q .directory).get? q = some .directory := get?_put_self hroot _ _
  have hempty : ∀ name, (disk.put q .directory).get? (q ++ [name]) = none := by
    intro name
    rw [get?_put_of_ne (by simp)]
    exact hwf.below (by simp [hfree]) (List.cons_ne_nil _ _)
  have hext : Extended disk (disk.put q .directory) := extended_put hfree _
  have hnolink : ∀ p, disk.get? p = none → ∀ target,
      (disk.put q .directory).get? p ≠ some (.link target) := by
    intro p hp target
    by_cases heq : p = q
    · simp [heq, hmade]
    · simp [get?_put_of_ne heq, hp]
  have hreaches : ∀ through, walk disk through linkLimit [] (start ++ front) = .ok q := by
    rintro ⟨⟩
    · exact hwalk
    · exact walk_through (by simp [hfree]) hwalk
  have htop : top <+: q :=
    h.beginnings front hfront q (hreaches true) fun entry hentry => by simp [hfree] at hentry
  -- Names behind the new directory stay in it, where they do not go up.
  have hbehind : ∀ rest, front ++ rest <+: names → ∀ through p,
      walk (disk.put q .directory) through linkLimit [] (start ++ (front ++ rest)) = .ok p →
      p = q ∨ ∃ name, p = q ++ [name] ∧ (disk.put q .directory).get? p = none := by
    intro rest hrest through p hp
    have hnew : ∀ through,
        walk (disk.put q .directory) through linkLimit [] (start ++ front) = .ok q :=
      fun through => walk_kept hext (fun _ => hnolink q) (hreaches through)
    by_cases hnil : rest = []
    · rw [hnil, List.append_nil, hnew] at hp
      exact .inl (Except.ok.inj hp).symm
    rw [← List.append_assoc] at hp
    rcases walk_split (disk.put q .directory) linkLimit [] (start ++ front) with
      ⟨left, -, r, harrives, hgoes⟩ | ⟨reason, -, hstuck⟩
    · rw [hnew] at harrives
      obtain rfl := Except.ok.inj harrives
      rw [hgoes _ _ hnil] at hp
      exact walk_in_empty hempty (fun hmem => hup (hrest.subset (by simp [hmem]))) hp
    · rw [hstuck _ _ hnil] at hp
      cases hp
  refine ⟨fun other hother p hp hloose => ?_, fun p entry hp hentry hnot => ?_⟩
  · have hne : p ≠ q := by
      rintro rfl
      cases hloose _ hmade
    rcases List.prefix_or_prefix_of_prefix hother hfront with ⟨rest, hrest⟩ | ⟨rest, rfl⟩
    · -- Before the new directory a walk goes as it did.
      have hon := hreaches true
      rw [← hrest, ← List.append_assoc] at hon
      obtain ⟨r, hr, -⟩ := walk_parts hon
      have hr' := walk_kept hext (fun _ => hnolink r) hr
      rw [hp] at hr'
      obtain rfl := Except.ok.inj hr'
      exact h.beginnings other hother p hr fun entry hentry =>
        hloose entry ((get?_put_of_ne hne _ _).trans hentry)
    · rcases hbehind rest hother true p hp with rfl | ⟨name, rfl, -⟩
      · exact absurd rfl hne
      · exact htop.trans (List.prefix_append _ _)
  · obtain ⟨rest, rfl⟩ := hfront
    rcases hbehind rest (List.prefix_refl _) false p hp with rfl | ⟨name, rfl, hnone⟩
    · rw [hmade] at hentry
      obtain rfl := Option.some.inj hentry
      cases hnot
    · rw [hnone] at hentry
      cases hentry

end Stays

end ProviderKit.Disk
