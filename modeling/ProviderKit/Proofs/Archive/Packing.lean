import Mathlib.Data.List.TakeWhile
import ProviderKit.Archive.Filter
import ProviderKit.Archive.Pack
import ProviderKit.Proofs.Disk.Carried
import ProviderKit.Proofs.Disk.Listing
import ProviderKit.Proofs.Disk.Names
import ProviderKit.Proofs.Disk.Placing
import ProviderKit.Proofs.Disk.Renewal
import ProviderKit.Proofs.Disk.SameTree
import ProviderKit.Proofs.Package.Discovery
import ProviderKit.Proofs.Run.Perform

/-!
# What an archive is packed from

The members of an archive are named by the names that lead to their entries, and reading a member
back gives these names again (`memberNames_join`, `stored_memberOf`). A file that has no other name
in the tree is packed as a file (`mem_membersOf`), and a tree without second names member by member
(`membersOf_eq_map`). The same trees have the same members (`membersOf_congr`). `packed_of_pack`
says what the disk is that packing leaves.
-/

namespace ProviderKit.Archive

open Disk (IsName Usable)

/-! ## The names of members -/

section Names

variable {x : Place} (hnames : ∀ name ∈ x, IsName name)
include hnames

/-- A member's name comes apart into the names that it was made of. -/
theorem split_join_names (hx : x ≠ []) :
    Text.split (.char '/') (Text.join "/" x) = x :=
  Text.split_join (fun name hname => (hnames name hname).slashless) hx

/-- A member's name leads along the names that it was made of. -/
theorem memberNames_join : memberNames (Text.join "/" x) = x := by
  by_cases hx : x = []
  · rw [hx]
    rfl
  · rw [memberNames, split_join_names hnames hx, List.filter_eq_self]
    intro name hname
    simpa using (hnames name hname).nonempty

/-- A member's name starts with no slash. -/
theorem head_join (hx : x ≠ []) :
    ∃ c rest, Text.join "/" x = c :: rest ∧ c ≠ .char '/' := by
  cases x with
  | nil => exact absurd rfl hx
  | cons name more =>
    have hname := hnames name List.mem_cons_self
    cases name with
    | nil => exact absurd rfl hname.nonempty
    | cons c name =>
      refine ⟨c, Text.join "/" (name :: more), Text.join_cons_cons c name more, ?_⟩
      rintro rfl
      exact hname.slashless List.mem_cons_self

/-- A member's name ends with no slash. -/
theorem last_join (hx : x ≠ []) :
    ∃ front c, Text.join "/" x = front ++ [c] ∧ c ≠ .char '/' := by
  obtain ⟨init, last, rfl⟩ := (List.eq_nil_or_concat x).resolve_left hx
  rw [List.concat_eq_append] at hnames ⊢
  have hlast := hnames last (by simp)
  obtain ⟨front, c, rfl⟩ := (List.eq_nil_or_concat last).resolve_left hlast.nonempty
  rw [List.concat_eq_append] at hlast ⊢
  have hc : c ≠ .char '/' := by
    rintro rfl
    exact hlast.slashless (by simp)
  cases init with
  | nil => exact ⟨front, c, rfl, hc⟩
  | cons first init =>
    have hjoin : Text.join "/" (first :: init ++ [front ++ [c]]) =
        Text.join "/" (first :: init) ++ .char '/' :: (front ++ [c]) := Text.join_concat _ _ _
    exact ⟨Text.join "/" (first :: init) ++ .char '/' :: front, c, by rw [hjoin]; simp, hc⟩

/-- A member's name has no slashes to lose at its beginning. -/
theorem dropWhile_join : (Text.join "/" x).dropWhile (· = .char '/') = Text.join "/" x := by
  by_cases hx : x = []
  · rw [hx]
    rfl
  · obtain ⟨c, rest, hjoin, hc⟩ := head_join hnames hx
    rw [hjoin, List.dropWhile_cons_of_neg (by simpa using hc)]

/-- A member's name has no slashes to lose at its end. -/
theorem withoutEndSlashes_join :
    Header.withoutEndSlashes (Text.join "/" x) = Text.join "/" x := by
  by_cases hx : x = []
  · rw [hx]
    rfl
  · obtain ⟨front, c, hjoin, hc⟩ := last_join hnames hx
    rw [Header.withoutEndSlashes, hjoin, List.reverse_append, List.reverse_singleton,
      List.singleton_append, List.dropWhile_cons_of_neg (by simpa using hc), List.reverse_cons,
      List.reverse_reverse]

/-- A member's name is checked along the names that it was made of. -/
theorem writtenNames_join (hx : x ≠ []) : Disk.writtenNames (Text.join "/" x) = x := by
  obtain ⟨c, rest, hjoin, hc⟩ := head_join hnames hx
  have hhead : ¬ (Text.join "/" x).head? = some (.char '/') := by
    rw [hjoin]
    simpa using hc
  rw [Disk.writtenNames, if_neg hhead, split_join_names hnames hx]

/-- A member's name can be given to a disk. -/
theorem usable_join : Usable (Text.join "/" x) := by
  refine Disk.usable_iff.2 fun c hc => ?_
  obtain rfl | ⟨name, hname, hpiece⟩ := Text.mem_join hc
  · exact ⟨rfl, by decide⟩
  · exact Disk.usable_iff.1 (hnames name hname).usable c hpiece

/-- The directory of a member is what leads to it without its last name. -/
theorem directoryText_join : directoryText (Text.join "/" x) = Text.join "/" x.dropLast := by
  rcases List.eq_nil_or_concat x with rfl | ⟨init, last, rfl⟩
  · rfl
  rw [List.concat_eq_append] at hnames ⊢
  rw [List.dropLast_concat]
  have hlast : ∀ c ∈ last.reverse, (c != CodePoint.char '/') = true := by
    intro c hc
    rw [bne_iff_ne]
    rintro rfl
    exact (hnames last (by simp)).slashless (List.mem_reverse.1 hc)
  unfold directoryText
  cases init with
  | nil =>
    have hupTo : last.reverse.dropWhile (· != CodePoint.char '/') = [] :=
      List.dropWhile_eq_nil_iff.2 hlast
    show (let upTo := (last.reverse.dropWhile (· != CodePoint.char '/')).reverse
      let stem := (upTo.reverse.dropWhile (· = CodePoint.char '/')).reverse
      if stem.isEmpty then upTo else stem) = []
    rw [hupTo]
    rfl
  | cons first init =>
    have hjoin : Text.join "/" (first :: init ++ [last]) =
        Text.join "/" (first :: init) ++ .char '/' :: last := Text.join_concat _ _ _
    have hupTo : ((Text.join "/" (first :: init ++ [last])).reverse.dropWhile
        (· != CodePoint.char '/')) = .char '/' :: (Text.join "/" (first :: init)).reverse := by
      rw [hjoin, List.reverse_append, List.reverse_cons, List.append_assoc,
        List.dropWhile_append_of_pos hlast]
      exact List.dropWhile_cons_of_neg (by simp)
    have hinit : ∀ name ∈ first :: init, IsName name := fun name hname =>
      hnames name (List.mem_append_left _ hname)
    have hstem : ((CodePoint.char '/' :: (Text.join "/" (first :: init)).reverse).dropWhile
        (· = CodePoint.char '/')).reverse = Text.join "/" (first :: init) := by
      rw [List.dropWhile_cons_of_pos (by simp)]
      exact withoutEndSlashes_join hinit
    have hsome : (Text.join "/" (first :: init)).isEmpty = false := by
      obtain ⟨c, rest, hjoin, -⟩ := head_join hinit (List.cons_ne_nil _ _)
      rw [hjoin]
      rfl
    simp only [hupTo, List.reverse_reverse, hstem, hsome, Bool.false_eq_true, if_false]

end Names

/-! ## Members that read back -/

/-- A text that can be given to a disk reads back from an archive. -/
theorem storedText_of_usable {t : Text} (h : Usable t) : storedText t = t := by
  unfold storedText
  split
  · have hkeep : ∀ c ∈ t, (c != CodePoint.char '\x00') = true := by
      intro c hc
      rw [bne_iff_ne]
      exact (Disk.usable_iff.1 h c hc).2
    exact List.takeWhile_eq_self_iff.2 hkeep
  · rfl

/-- A member reads back from an archive if its names can be those of entries. -/
theorem stored_memberOf {x : Place} {entry : Entry} (hnames : ∀ name ∈ x, IsName name)
    (htarget : ∀ target, entry = .link target → Usable target) :
    stored (memberOf x entry) = memberOf x entry := by
  have hname : storedText (Text.join "/" x) = Text.join "/" x :=
    storedText_of_usable (usable_join hnames)
  have hfile : storedFileName (Text.join "/" x) = Text.join "/" x := by
    unfold storedFileName
    split
    · exact hname
    · exact withoutEndSlashes_join hnames
  cases entry with
  | directory => rw [memberOf, stored, hname, withoutEndSlashes_join hnames]
  | file mode content => rw [memberOf, stored, hfile]
  | link target => rw [memberOf, stored, hfile, storedText_of_usable (htarget target rfl)]

/-! ## Files without second names -/

/-- An entry that shares with none of those before it is no second name. -/
theorem firstName_eq_none {disk : Disk} {before : List Place} {place : Place}
    (h : ∀ q ∈ before, q ∉ disk.sharers place) : firstName disk before place = none := by
  refine List.find?_eq_none.2 fun q hq => ?_
  rw [List.contains_iff_mem]
  exact h q hq

/-- An entry is packed as what it is if it shares with no other one that is packed. -/
theorem mem_membersOf {disk : Disk} (h : disk.Orderly) {place x : Place} {entry : Entry}
    (hmem : (x, entry) ∈ disk.below place)
    (halone : ∀ y, place ++ y ∈ disk.sharers (place ++ x) → y = x) :
    memberOf x entry ∈ membersOf disk place := by
  have hlist : ∀ (entries : List (Place × Entry)) (before : List Place),
      (entries.map Prod.fst).Nodup → (x, entry) ∈ entries →
      (∀ q ∈ before, q ∉ disk.sharers (place ++ x)) →
      memberOf x entry ∈ membersFrom disk place before entries := by
    intro entries
    induction entries with
    | nil => exact fun _ _ hmem => absurd hmem List.not_mem_nil
    | cons head rest ih =>
      obtain ⟨y, other⟩ := head
      intro before hnodup hmem hbefore
      rw [List.map_cons, List.nodup_cons] at hnodup
      rcases List.mem_cons.1 hmem with heq | hrest
      · cases heq
        rw [membersFrom, firstName_eq_none hbefore]
        exact List.mem_cons_self
      · rw [membersFrom]
        refine List.mem_cons_of_mem _ (ih _ hnodup.2 hrest fun q hq => ?_)
        rcases List.mem_append.1 hq with hold | hnew
        · exact hbefore q hold
        · rw [List.mem_singleton.1 hnew]
          intro hshares
          rw [halone y hshares] at hnodup
          exact hnodup.1 (List.mem_map.2 ⟨_, hrest, rfl⟩)
  exact hlist _ [] (h.nodup_below place) hmem (by simp)

/-- Where no file has two names, entries are packed one by one. -/
theorem membersFrom_eq_map {disk : Disk} {place : Place}
    (halone : ∀ x y, place ++ y ∈ disk.sharers (place ++ x) → y = x)
    {entries : List (Place × Entry)} {before : List Place} (hnodup : (entries.map Prod.fst).Nodup)
    (hbefore : ∀ x ∈ entries.map Prod.fst, ∀ q ∈ before, q ∉ disk.sharers (place ++ x)) :
    membersFrom disk place before entries = entries.map fun (x, entry) => memberOf x entry := by
  induction entries generalizing before with
  | nil => rfl
  | cons head rest ih =>
    obtain ⟨x, entry⟩ := head
    rw [List.map_cons, List.nodup_cons] at hnodup
    have hfirst := firstName_eq_none (hbefore x List.mem_cons_self)
    have hshown : ∀ y ∈ rest.map Prod.fst, ∀ q ∈ before ++ [place ++ x],
        q ∉ disk.sharers (place ++ y) := by
      intro y hy q hq
      rcases List.mem_append.1 hq with hold | hnew
      · exact hbefore y (List.mem_cons_of_mem _ hy) q hold
      · rw [List.mem_singleton.1 hnew]
        intro hshares
        exact hnodup.1 (halone y x hshares ▸ hy)
    rw [membersFrom, hfirst, ih hnodup.2 hshown]
    rfl

/-- Where no file has two names, what lies below a place is packed one by one. -/
theorem membersOf_eq_map {disk : Disk} (h : disk.Orderly) {place : Place}
    (halone : ∀ x y, place ++ y ∈ disk.sharers (place ++ x) → y = x) :
    membersOf disk place = (disk.below place).map fun (x, entry) => memberOf x entry :=
  membersFrom_eq_map halone (h.nodup_below place) (by simp)

section Obstacles

variable [Interpreter] {disk : Disk} {source : Path} {place : Place}

/-- Nothing is in the way just if every entry can be packed. -/
theorem obstacle?_eq_none : obstacle? disk source place = none ↔
    ∀ entry ∈ disk.below place, isPacked source entry.1 = true := by
  simp [obstacle?]

/-- Where nothing is in the way, everything below a place is packed. -/
theorem membersWithin_eq (h : obstacle? disk source place = none) :
    membersWithin disk source place = membersOf disk place := by
  rw [membersWithin, membersOf, List.takeWhile_eq_self_iff.2 (obstacle?_eq_none.1 h)]

end Obstacles

/-! ## The same trees -/

section Same

variable {disk other : Disk} {place place' : Place}

/-- The first name of a file is found at the same names of the same trees. -/
theorem firstName_congr (h : Disk.SameTree disk place other place') (before : List Place)
    (x : Place) : ∃ first : Option Place,
      firstName disk (before.map (place ++ ·)) (place ++ x) = first.map (place ++ ·) ∧
      firstName other (before.map (place' ++ ·)) (place' ++ x) = first.map (place' ++ ·) := by
  have hshares : ((other.sharers (place' ++ x)).contains ∘ (place' ++ ·)) =
      ((disk.sharers (place ++ x)).contains ∘ (place ++ ·)) := by
    funext y
    rw [Bool.eq_iff_iff, Function.comp_apply, Function.comp_apply, List.contains_iff_mem,
      List.contains_iff_mem, h.sharers]
  refine ⟨before.find? ((disk.sharers (place ++ x)).contains ∘ (place ++ ·)), List.find?_map, ?_⟩
  rw [← hshares]
  exact List.find?_map

/-- The same entries of the same trees have the same members. -/
theorem membersFrom_congr (h : Disk.SameTree disk place other place')
    (entries : List (Place × Entry)) (before : List Place) :
    membersFrom other place' (before.map (place' ++ ·)) entries =
      membersFrom disk place (before.map (place ++ ·)) entries := by
  induction entries generalizing before with
  | nil => rfl
  | cons head rest ih =>
    obtain ⟨x, entry⟩ := head
    obtain ⟨first, hfirst, hfirst'⟩ := firstName_congr h before x
    have hrest := ih (before ++ [x])
    rw [List.map_append, List.map_append, List.map_singleton, List.map_singleton] at hrest
    rw [membersFrom, membersFrom, hfirst, hfirst', hrest]
    cases first with
    | none => rfl
    | some y =>
      simp only [Option.map_some, List.drop_left]

/-- The same trees have the same members. -/
theorem membersOf_congr (h : Disk.SameTree disk place other place') (horderly : disk.Orderly)
    (horderly' : other.Orderly) : membersOf other place' = membersOf disk place := by
  rw [membersOf, membersOf, h.below horderly horderly']
  exact membersFrom_congr h _ []

end Same

/-! ## Packing -/

/-- A directory that could be listed is one. -/
theorem find_of_list {disk : Disk} {path : Path} {place : Place} {names : List Text}
    (h : disk.list path = .ok (place, names)) :
    disk.find true path = .ok (place, .directory) := by
  unfold Disk.list at h
  rcases hfind : disk.find true path with fault | ⟨p, entry⟩
  · rw [hfind] at h
    cases h
  · rw [hfind] at h
    cases entry with
    | directory =>
      cases h
      rfl
    | file => cases h
    | link => cases h

/-- What packing leaves. The archive has been written twice at its place, empty and then with the
members for what was below the place of the source in between. -/
structure Packed (source archive : Path) (opened left : Disk) (place target : Place) : Prop where
  located : opened.locate true archive = .ok target
  listed : left.find true source = .ok (place, .directory)
  sound : left.Sound
  written : ∃ emptied, emptied.Sound ∧ Disk.Written opened target (.bytes []) emptied ∧
    Disk.Written emptied target (.archive ((membersOf emptied place).map stored)) left

/-- A sound disk stays sound when a file is written. -/
theorem sound_of_write {disk left : Disk} (h : disk.Sound) {path : Path} {content : Content}
    (hwrite : disk.write path content = .ok left) : left.Sound := by
  have hrelated := Disk.matching_carried.write (.refl h) path content
  rw [hwrite] at hrelated
  exact hrelated.sound

/-- A path leads to a file that has been written there. -/
theorem locate_of_written {disk left : Disk} (hwf : disk.WellFormed) {path : Path} {place : Place}
    {content : Content} (hlocate : disk.locate true path = .ok place)
    (hwritten : Disk.Written disk place content left) :
    left.locate true path = .ok place := by
  obtain ⟨mode, hfile⟩ := hwritten.shown place (Disk.mem_sharers_self _ _)
  refine Disk.locate_of_extended (hwritten.extended hwf) ?_ hlocate
  rw [hfile]
  rintro - _ ⟨⟩

/-- Packing makes the directories above the archive, and then packs. -/
theorem packed_of_pack [Interpreter] {source archive : Path} {w packed : World}
    (hsound : w.disk.Sound) (h : (pack source archive).perform w = (.ok (), packed)) :
    ∃ place target, Packed source archive (w.disk.makeDirectories true archive.parent).2
      packed.disk place target := by
  unfold pack at h
  obtain ⟨_, w₁, hmade, h⟩ := Run.perform_bind_eq_ok h
  rw [Run.perform_requests] at hmade
  obtain ⟨-, rfl⟩ := Prod.mk.inj hmade
  have hopened : (w.disk.makeDirectories true archive.parent).2.Sound :=
    hsound.makeDirectoriesWith _ true archive.parent
  obtain ⟨_, w₂, hrequest, h⟩ := Run.perform_bind_eq_ok h
  obtain ⟨emptied, hempty, rfl⟩ := Run.request_eq_ok hrequest
  have hemptied := sound_of_write hopened hempty
  obtain ⟨⟨place, names⟩, w₃, hlook, h⟩ := Run.perform_bind_eq_ok h
  rw [Run.perform_look] at hlook
  obtain ⟨hlist, rfl⟩ := Prod.mk.inj hlook
  obtain ⟨obstacle, w₄, hlook', h⟩ := Run.perform_bind_eq_ok h
  rw [Run.perform_look] at hlook'
  obtain ⟨hobstacle, rfl⟩ := Prod.mk.inj hlook'
  obtain ⟨_, w₅, hrequest, h⟩ := Run.perform_bind_eq_ok h
  obtain ⟨left, hwrite, rfl⟩ := Run.request_eq_ok hrequest
  -- Packing ends well only where every entry could be packed.
  obtain rfl : obstacle = none := by
    cases obstacle with
    | none => rfl
    | some fault => cases h
  rw [membersWithin_eq (Except.ok.inj hobstacle)] at hwrite
  cases h
  obtain ⟨target, hlocate, hwritten⟩ := Disk.write_ok hopened.toWellFormed hempty
  obtain ⟨target', hlocate', hwritten'⟩ := Disk.write_ok hemptied.toWellFormed hwrite
  rw [locate_of_written hopened.toWellFormed hlocate hwritten] at hlocate'
  obtain rfl := Except.ok.inj hlocate'
  have hfound := find_of_list (orFail_eq_ok.1 hlist)
  refine ⟨place, target, hlocate, ?_, sound_of_write hemptied hwrite, emptied, hemptied, hwritten,
    hwritten'⟩
  obtain ⟨entry, hentry, hseen⟩ :=
    Disk.find_of_extended (hwritten'.extended hemptied.toWellFormed) hfound
  cases entry with
  | directory => exact hentry
  | file => cases hseen
  | link => cases hseen

/-! ## What is in the archive -/

namespace Packed

variable {source archive : Path} {opened left : Disk} {place target : Place}

/-- The path of the archive leads to it. -/
theorem locate (h : Packed source archive opened left place target) (hwf : opened.WellFormed) :
    left.locate true archive = .ok target := by
  obtain ⟨emptied, hemptied, hfirst, hlast⟩ := h.written
  exact locate_of_written hemptied.toWellFormed (locate_of_written hwf h.located hfirst) hlast

/-- The archive is found with what was written last. -/
theorem read (h : Packed source archive opened left place target) (hwf : opened.WellFormed) :
    ∃ emptied, emptied.Sound ∧ Disk.Written opened target (.bytes []) emptied ∧
      (∀ p, p ∉ left.sharers target → emptied.get? p = left.get? p) ∧
      (∀ p, emptied.sharers p = left.sharers p) ∧
      left.read archive = .ok (.archive ((membersOf emptied place).map stored)) := by
  obtain ⟨emptied, hemptied, hfirst, hlast⟩ := h.written
  refine ⟨emptied, hemptied, hfirst, fun p hp => ?_, fun p => (hlast.sharers p).symm, ?_⟩
  · rw [hlast.sharers] at hp
    exact (hlast.view p hp).symm
  · obtain ⟨mode, hfile⟩ := hlast.shown target (Disk.mem_sharers_self _ _)
    exact Disk.read_eq_ok.2 ⟨target, mode, Disk.find_eq_ok.2 ⟨h.locate hwf, hfile⟩⟩

/-- Apart from the archive everything is as it was. -/
theorem view (h : Packed source archive opened left place target) :
    (∀ p, p ∉ opened.sharers target → left.get? p = opened.get? p) ∧
      (∀ p, left.sharers p = opened.sharers p) := by
  obtain ⟨emptied, -, hfirst, hlast⟩ := h.written
  refine ⟨fun p hp => ?_, fun p => (hlast.sharers p).trans (hfirst.sharers p)⟩
  rw [hlast.view p (hfirst.sharers target ▸ hp), hfirst.view p hp]

/-- Every entry is still there. -/
theorem extended (h : Packed source archive opened left place target) (hwf : opened.WellFormed) :
    Disk.Extended opened left := by
  obtain ⟨emptied, hemptied, hfirst, hlast⟩ := h.written
  exact (hfirst.extended hwf).trans (hlast.extended hemptied.toWellFormed)

variable (hapart : ∀ p ∈ left.sharers target, ¬ place <+: p)
include hapart

/-- An entry with one name is in the archive as what it is. -/
theorem exists_member (h : Packed source archive opened left place target)
    (hwf : opened.WellFormed) {x : Place} {entry : Entry} (hx : x ≠ [])
    (hentry : left.get? (place ++ x) = some entry)
    (halone : ∀ y, place ++ y ∈ left.sharers (place ++ x) → y = x) :
    ∃ members, left.read archive = .ok (.archive members) ∧
      stored (memberOf x entry) ∈ members := by
  obtain ⟨emptied, hemptied, -, hview, hsharers, hread⟩ := h.read hwf
  refine ⟨_, hread, List.mem_map_of_mem (mem_membersOf hemptied.toOrderly ?_ fun y hy => ?_)⟩
  · refine hemptied.mem_below.2 ⟨hx, ?_⟩
    rw [hview _ fun hp => hapart _ hp (List.prefix_append _ _), hentry]
  · exact halone y (hsharers _ ▸ hy)

end Packed

end ProviderKit.Archive
