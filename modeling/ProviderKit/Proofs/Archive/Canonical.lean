import ProviderKit.Proofs.Archive.Packing
import ProviderKit.Proofs.Disk.Regular

/-!
# Archives list a tree in canonical order

What lies below a place is listed entry by entry: right behind a directory comes everything below
it, and entries side by side come in code point order (`Disk.ListsInOrder`). This is not the order
of the paths as texts, in which `a-b` comes before `a/c`.

A directory that can be packed into an archive outside of it (`Packable`) is packed in this order,
each entry as what it is, if no entry is more levels down than the interpreter goes, and the path of
every entry is short enough to ask for it (`pack_lists_tree`). So the members depend on the tree and
on nothing else. Of any other tree only the part before the first entry in the way is packed, and
then packing fails.
-/

namespace ProviderKit

namespace Disk

/-! ## The canonical order -/

/-- The list has what lies below a place, each entry once under the names that lead to it from
there, in canonical order. -/
structure ListsInOrder (disk : Disk) (place : Place) (listing : List (Place × Entry)) : Prop where
  /-- The entries below the place are listed, and nothing else. -/
  mem : ∀ x entry, (x, entry) ∈ listing ↔ x ≠ [] ∧ disk.get? (place ++ x) = some entry
  /-- Each of them is listed once. -/
  nodup : (listing.map Prod.fst).Nodup
  /-- Right behind an entry comes everything that lies below it. -/
  together : ∀ before x entry after, listing = before ++ (x, entry) :: after →
    ∃ inside rest, after = inside ++ rest ∧
      ∀ y other, (y, other) ∈ inside ↔ (y, other) ∈ listing ∧ x <+: y ∧ y ≠ x
  /-- Entries of one directory come in the code point order of their names. -/
  siblings : listing.Pairwise fun a b => ∀ parent m n,
    a.1 = parent ++ [m] → b.1 = parent ++ [n] → Text.le m n = true

/-- A place between another one and one below that is below it too. -/
theorem prefix_of_placeLe {x a y : Place} (hxa : placeLe x a = true) (hay : placeLe a y = true)
    (hxy : x <+: y) : x <+: a := by
  induction x generalizing a y with
  | nil => exact List.nil_prefix
  | cons c x ih =>
    obtain ⟨rest, rfl⟩ := hxy
    cases a with
    | nil => cases hxa
    | cons d a =>
      rw [List.cons_append, placeLe] at hay
      rw [placeLe] at hxa
      by_cases hcd : c = d
      · subst hcd
        rw [if_pos rfl] at hxa hay
        exact List.cons_prefix_cons.2 ⟨rfl, ih hxa hay (List.prefix_append _ _)⟩
      · rw [if_neg hcd] at hxa
        rw [if_neg (Ne.symm hcd)] at hay
        exact absurd (Text.le_antisymm hxa hay) hcd

/-- Of two names in one directory the one that is not the greater one comes first. -/
theorem placeLe_siblings (parent : Place) (m n : Text) :
    placeLe (parent ++ [m]) (parent ++ [n]) = Text.le m n := by
  induction parent with
  | nil =>
    show placeLe [m] [n] = _
    rw [placeLe]
    split
    next heq =>
      obtain rfl := heq
      exact ((or_self_iff).1 (Text.le_total m m)).symm
    next => rfl
  | cons c parent ih => rw [List.cons_append, List.cons_append, placeLe, if_pos rfl, ih]

/-- The entry is listed at or below a place. -/
def isWithin (x : Place) (item : Place × Entry) : Bool := x.isPrefixOf item.1

/-- In a list in order, what comes behind a place and is below it comes before all else. -/
theorem not_prefix_of_mem_dropWhile {x : Place} {after : List (Place × Entry)}
    (hbehind : ∀ a ∈ after, placeLe x a.1 = true)
    (hordered : after.Pairwise fun a b => placeLe a.1 b.1 = true) {b : Place × Entry}
    (hb : b ∈ after.dropWhile (isWithin x)) : ¬ x <+: b.1 := by
  induction after with
  | nil => cases hb
  | cons a after ih =>
    obtain ⟨hfirst, hrest⟩ := List.pairwise_cons.1 hordered
    by_cases hinside : isWithin x a = true
    · rw [List.dropWhile_cons_of_pos hinside] at hb
      exact ih (fun c hc => hbehind c (List.mem_cons_of_mem _ hc)) hrest hb
    · rw [List.dropWhile_cons_of_neg hinside] at hb
      rw [isWithin, List.isPrefixOf_iff_prefix] at hinside
      rcases List.mem_cons.1 hb with rfl | hlater
      · exact hinside
      · exact fun hbelow =>
          hinside (prefix_of_placeLe (hbehind a List.mem_cons_self) (hfirst b hlater) hbelow)

/-- What lies below a place is listed in canonical order. -/
theorem Orderly.listsInOrder_below {disk : Disk} (h : disk.Orderly) (place : Place) :
    disk.ListsInOrder place (disk.below place) where
  mem _ _ := h.mem_below
  nodup := h.nodup_below place
  together before x entry after hlist := by
    have hordered := pairwise_below disk place
    have hnodup := h.nodup_below place
    rw [hlist] at hordered hnodup ⊢
    obtain ⟨hbehind, hafter⟩ := List.pairwise_cons.1 (List.pairwise_append.1 hordered).2.1
    refine ⟨after.takeWhile (isWithin x), after.dropWhile (isWithin x),
      List.takeWhile_append_dropWhile.symm, fun y other => ⟨fun hinside => ?_, ?_⟩⟩
    · have hmem : (y, other) ∈ after := (List.takeWhile_sublist _).subset hinside
      have hbelow : isWithin x (y, other) = true := List.mem_takeWhile_imp hinside
      refine ⟨by simp [hmem], List.isPrefixOf_iff_prefix.1 hbelow, ?_⟩
      rintro rfl
      rw [List.map_append, List.map_cons] at hnodup
      exact (List.nodup_cons.1 (List.nodup_append.1 hnodup).2.1).1
        (List.mem_map.2 ⟨_, hmem, rfl⟩)
    · rintro ⟨hmem, hbelow, hne⟩
      rcases List.mem_append.1 hmem with hbefore | hrest
      · have hle := (List.pairwise_append.1 hordered).2.2 _ hbefore _ List.mem_cons_self
        rw [not_placeLe_of_above hbelow hne.symm] at hle
        cases hle
      rcases List.mem_cons.1 hrest with heq | hmore
      · exact absurd (congrArg Prod.fst heq) hne
      rw [← after.takeWhile_append_dropWhile (p := isWithin x), List.mem_append] at hmore
      exact hmore.resolve_right fun hdropped =>
        not_prefix_of_mem_dropWhile hbehind hafter hdropped hbelow
  siblings := by
    refine (pairwise_below disk place).imp ?_
    rintro ⟨a, entry⟩ ⟨b, other⟩ hle parent m n ha hb
    rw [← placeLe_siblings parent, ← ha, ← hb]
    exact hle

/-! ## Directories above -/

/-- A disk is still as a machine keeps it when directories have been made along a path whose names
can be read from a text. -/
theorem Regular.makeDirectories [Interpreter] {disk : Disk} (h : disk.Regular) {path : Path}
    (hparts : ∀ name ∈ path.names, name ≠ [] ∧ .char '/' ∉ name) (mayExist : Bool) :
    (disk.makeDirectories mayExist path).2.Regular := by
  refine makeDirectoriesWith_keeps (I := Regular) _ (fun n disk made hdisk hmade => ?_) h mayExist
  obtain ⟨place, hlocate, hfree, rfl⟩ := makeDirectory_ok hmade
  have hnew : ∃ parent last, place = parent ++ [last] ∧ disk.get? parent ≠ none ∧ IsName last := by
    have hsub := List.take_subset n path.names
    unfold ancestor at hlocate
    rcases List.eq_nil_or_concat (path.names.take n) with hnil | ⟨front, name, hnames⟩
    · obtain ⟨-, hwalk⟩ := walk_of_locate hlocate
      rw [readNames, hnil, List.map_nil, walk_eq, followNames_nil] at hwalk
      cases hwalk
      cases hfree
    · rw [List.concat_eq_append] at hnames
      rw [hnames] at hlocate hsub
      obtain ⟨hsome, hslashless⟩ := hparts name (hsub (by simp))
      have hchild : disk.locate false ((⟨path.root, front⟩ : Path).child name) = .ok place :=
        hlocate
      exact hdisk.new_child hsome hslashless hchild hfree
  obtain ⟨parent, last, rfl, hparent, hlast⟩ := hnew
  refine hdisk.of_new ?_ fun p entry hp => ?_
  · obtain ⟨parent', name, heq, hdirectory⟩ := hdisk.toSound.locate_parent hlocate hfree
    rw [heq] at hfree ⊢
    exact hdisk.toSound.put hdirectory hfree _
  · by_cases heq : p = parent ++ [last]
    · subst heq
      rw [get?_put_self (by simp)] at hp
      cases hp
      exact .inr ⟨rfl, fun _ => ⟨parent, last, rfl, hparent, hlast⟩⟩
    · rw [get?_put_of_ne heq] at hp
      exact .inl hp

end Disk

namespace Archive

open Disk (IsName Usable)

/-! ## Packing -/

/-- How packing ends, given what is in the way of the first entry that cannot be packed. -/
def ending : Option Disk.Fault → Except Failure Unit
  | none => .ok ()
  | some fault => .error (.disk fault)

/-- If what packing asks of the disk is done, all that is left to fail is an entry that is too many
levels down, or whose path is too long. -/
theorem perform_pack [Interpreter] {disk opened emptied left : Disk} {source archive : Path}
    {place : Place} (hmade : disk.makeDirectories true archive.parent = (.ok (), opened))
    (hopened : opened.write archive (.bytes []) = .ok emptied)
    (hfound : emptied.find true source = .ok (place, .directory))
    (hwritten : emptied.write archive
      (.archive ((membersWithin emptied source place).map stored)) = .ok left) {w : World}
    (hw : w.disk = disk) :
    (pack source archive).perform w =
      (ending (obstacle? emptied source place), { w with disk := left }) := by
  have hlisted : emptied.list source = .ok (place, emptied.names place) := by
    rw [Disk.list, hfound]
    rfl
  unfold pack
  have hrequests : (Run.requests fun disk => disk.makeDirectories true archive.parent).perform w =
      (.ok (), { w with disk := opened }) := by
    rw [Run.perform_requests, hw, hmade]
    rfl
  rw [Run.perform_bind_ok _ hrequests, Run.perform_bind_ok _ (Run.perform_request_ok hopened)]
  have hlook : (Run.look fun disk => orFail (disk.list source)).perform
      { w with disk := emptied } =
        (.ok (place, emptied.names place), { w with disk := emptied }) := by
    rw [Run.perform_look, hlisted]
    rfl
  have hlook' : (Run.look fun disk => .ok (obstacle? disk source place)).perform
      { w with disk := emptied } =
        (.ok (obstacle? emptied source place), { w with disk := emptied }) := Run.perform_look _ _
  rw [Run.perform_bind_ok _ hlook]
  dsimp only
  rw [Run.perform_bind_ok _ hlook', Run.perform_bind_ok _ (Run.perform_request_ok hwritten)]
  cases obstacle? emptied source place <;> rfl

/-- Of a tree without second names each entry that is packed is stored as what it is. -/
theorem stored_membersFrom {disk : Disk} (h : disk.Regular) {place : Place}
    (halone : ∀ x, disk.sharers (place ++ x) = [place ++ x]) {entries : List (Place × Entry)}
    (hsub : entries.Sublist (disk.below place)) :
    (membersFrom disk place [] entries).map stored =
      entries.map fun (x, entry) => memberOf x entry := by
  have hsingle : ∀ x y, place ++ y ∈ disk.sharers (place ++ x) → y = x := by
    intro x y hy
    rw [halone, List.mem_singleton] at hy
    exact List.append_cancel_left hy
  have hnodup := (h.toOrderly.nodup_below place).sublist (hsub.map _)
  rw [membersFrom_eq_map hsingle hnodup (by simp), List.map_map]
  refine List.map_congr_left fun ⟨x, entry⟩ hmem => ?_
  obtain ⟨-, hentry⟩ := h.toOrderly.mem_below.1 (hsub.subset hmem)
  refine stored_memberOf (fun name hname => ?_) fun target heq => ?_
  · exact h.names _ _ hentry name (List.mem_append_right _ hname)
  · exact (h.targets _ target (heq ▸ hentry)).usable

/-- A directory can be packed into an archive outside of it, on a disk as a machine keeps it; the
second disk is the first one with the directories above the archive. -/
structure Packable [Interpreter] (disk opened : Disk) (source archive : Path) (place : Place) :
    Prop where
  regular : disk.Regular
  /-- The path of the archive has names that can be read from a text. -/
  parts : ∀ name ∈ archive.names, name ≠ [] ∧ .char '/' ∉ name
  /-- The missing directories above the archive can be made. -/
  made : disk.makeDirectories true archive.parent = (.ok (), opened)
  /-- Then the archive can be opened. -/
  opens : ∃ emptied, opened.write archive (.bytes []) = .ok emptied
  /-- The source is a directory. -/
  found : opened.find true source = .ok (place, .directory)
  /-- The archive lies outside of it. -/
  outside : ∀ target, opened.locate true archive = .ok target → ¬ place <+: target
  /-- No file in it has another name. -/
  alone : ∀ x, opened.sharers (place ++ x) = [place ++ x]

/-- Everything below a place can be packed: it is not too many levels down, and its path is short
enough to ask for it. -/
def Reached [Interpreter] (disk : Disk) (source : Path) (place : Place) : Prop :=
  ∀ x entry, x ≠ [] → disk.get? (place ++ x) = some entry → isPacked source x = true

namespace Packable

variable [Interpreter] {disk opened : Disk} {source archive : Path} {place : Place}

/-- The directories above the archive leave a disk as a machine keeps it. -/
theorem regular_opened (h : Packable disk opened source archive place) : opened.Regular := by
  have hparents : (disk.makeDirectories true archive.parent).2.Regular :=
    h.regular.makeDirectories (fun name hname => h.parts name (List.dropLast_subset _ hname)) true
  rwa [h.made] at hparents

/-- The archive shares its file with nothing in the source, so writing it leaves that alone. -/
theorem sameTree (h : Packable disk opened source archive place) {target : Place}
    (hlocate : opened.locate true archive = .ok target) {content : Content} {left : Disk}
    (hwritten : Disk.Written opened target content left) :
    Disk.SameTree opened place left place := by
  have hdisjoint : ∀ x, place ++ x ∉ opened.sharers target := by
    intro x hx
    have hsame := h.regular_opened.toOrderly.sharers_of_mem hx
    have hself := Disk.mem_sharers_self opened target
    rw [← hsame, h.alone, List.mem_singleton] at hself
    exact h.outside target hlocate (hself ▸ List.prefix_append _ _)
  exact ⟨fun x => hwritten.view _ (hdisjoint x), fun x y => by rw [hwritten.sharers]⟩

/-- Packing leaves the archive in a directory, and in it what lies below the source before the
first entry that cannot be packed. -/
theorem packs (h : Packable disk opened source archive place) :
    ∃ left parent,
      (∀ w : World, w.disk = disk → (pack source archive).perform w =
        (ending (obstacle? opened source place), { w with disk := left })) ∧
      left.find true archive.parent = .ok (parent, .directory) ∧
      left.read archive = .ok (.archive (((opened.below place).takeWhile fun (x, _) =>
        isPacked source x).map fun (x, entry) => memberOf x entry)) := by
  have hregular := h.regular_opened
  have hwf := hregular.toWellFormed
  obtain ⟨emptied, hopened⟩ := h.opens
  obtain ⟨target, hlocate, hfirst⟩ := Disk.write_ok hwf hopened
  have hemptied := sound_of_write hregular.toSound hopened
  have htree := h.sameTree hlocate hfirst
  have hbelow := htree.below hregular.toOrderly hemptied.toOrderly
  have hobstacle : obstacle? emptied source place = obstacle? opened source place := by
    rw [obstacle?, hbelow, obstacle?]
  have hmembers : (membersWithin emptied source place).map stored =
      ((opened.below place).takeWhile fun (x, _) => isPacked source x).map fun (x, entry) =>
        memberOf x entry := by
    rw [membersWithin, hbelow, ← stored_membersFrom hregular h.alone (List.takeWhile_sublist _)]
    exact congrArg (List.map stored) (membersFrom_congr htree _ [])
  obtain ⟨target', left, hlocate', hwrite, hwritten⟩ := Disk.write_again hwf hopened
    (.archive ((membersWithin emptied source place).map stored))
  obtain rfl := Except.ok.inj (hlocate.symm.trans hlocate')
  have hfound := Disk.find_directory_of_extended (hfirst.extended hwf) h.found
  obtain ⟨parent, henters⟩ := Disk.makeDirectories_enters h.made
  have hgivable := Disk.isGivable_parent (Disk.walk_of_locate hlocate).1
  obtain ⟨mode, hfile⟩ := hwritten.shown target (Disk.mem_sharers_self _ _)
  refine ⟨left, parent, fun w hw => ?_, ?_, ?_⟩
  · rw [← hobstacle]
    exact perform_pack h.made hopened hfound hwrite hw
  · exact (Disk.enters_iff_find hgivable).1 (henters.extended (hwritten.extended hwf))
  · rw [← hmembers]
    exact Disk.read_eq_ok.2 ⟨target, mode,
      Disk.find_eq_ok.2 ⟨locate_of_written hwf hlocate hwritten, hfile⟩⟩

/-- Where nothing is in the way, all that lies below the source is packed. -/
theorem packs_all (h : Packable disk opened source archive place)
    (hreached : Reached opened source place) :
    obstacle? opened source place = none ∧
      ((opened.below place).takeWhile fun (x, _) => isPacked source x) = opened.below place := by
  have hall : ∀ item ∈ opened.below place, isPacked source item.1 = true := fun ⟨x, entry⟩ hmem =>
    have ⟨hx, hentry⟩ := h.regular_opened.toOrderly.mem_below.1 hmem
    hreached x entry hx hentry
  refine ⟨?_, List.takeWhile_eq_self_iff.2 hall⟩
  rw [obstacle?, Option.map_eq_none_iff, List.find?_eq_none]
  intro item hmem
  simp [hall item hmem]

end Packable

/-- Whether a directory can be packed into an archive outside of it, where no file has two names. -/
def isPackable [Interpreter] (disk : Disk) (source archive : Path) (place : Place) : Bool :=
  let (outcome, opened) := disk.makeDirectories true archive.parent
  disk.isRegular && opened.shared.isEmpty && outcome.isOk &&
    archive.names.all (fun name => !name.isEmpty && !name.contains (.char '/')) &&
    (opened.write archive (.bytes [])).isOk &&
    (match opened.find true source with
      | .ok (found, .directory) => found = place
      | _ => false) &&
    (match opened.locate true archive with
      | .ok target => !place.isPrefixOf target
      | .error _ => true)

/-- What has been checked can be packed. -/
theorem packable_of_check [Interpreter] {disk : Disk} {source archive : Path} {place : Place}
    (h : isPackable disk source archive place = true) :
    Packable disk (disk.makeDirectories true archive.parent).2 source archive place := by
  unfold isPackable at h
  rcases hmade : disk.makeDirectories true archive.parent with ⟨outcome, opened⟩
  rw [hmade] at h
  simp only [Bool.and_eq_true, List.isEmpty_iff] at h
  obtain ⟨⟨⟨⟨⟨⟨hregular, hshared⟩, houtcome⟩, hparts⟩, hopens⟩, hfound⟩, houtside⟩ := h
  refine ⟨Disk.regular_of_check hregular, fun name hname => ?_, ?_, ?_, ?_, fun target ht => ?_,
    fun x => by simp [Disk.sharers, hshared]⟩
  · simpa using List.all_eq_true.1 hparts name hname
  · cases outcome with
    | error fault => cases houtcome
    | ok => exact hmade
  · rcases hopened : opened.write archive (.bytes []) with fault | emptied
    · rw [hopened] at hopens
      cases hopens
    · exact ⟨emptied, rfl⟩
  · split at hfound
    next found heq => rw [heq, of_decide_eq_true hfound]
    next => cases hfound
  · rw [ht] at houtside
    simpa [← List.isPrefixOf_iff_prefix] using houtside

/-- Whether everything below a place can be packed. -/
def isReached [Interpreter] (disk : Disk) (source : Path) (place : Place) : Bool :=
  (disk.below place).all fun (x, _) => isPacked source x

/-- What has been checked can be packed. -/
theorem reached_of_check [Interpreter] {disk : Disk} (h : disk.Regular) {source : Path}
    {place : Place} (hcheck : isReached disk source place = true) : Reached disk source place :=
  fun _ _ hx hentry => List.all_eq_true.1 hcheck _ (h.toOrderly.mem_below.2 ⟨hx, hentry⟩)

/-- The names of the members of an archive, if there is one at the path. -/
def memberNamesAt (disk : Disk) (path : Path) : Option (List Text) :=
  match disk.read path with
  | .ok (.archive members) => some (members.map Member.name)
  | _ => none

/-- A directory with names that are in another order than the paths that they make. -/
def bushy : Disk where
  entries :=
    [([Text.ofString "s"], .directory),
     ([Text.ofString "s", "a-b"], .file .usual (.bytes [1])),
     ([Text.ofString "s", "a"], .directory),
     ([Text.ofString "s", "a", "c"], .link "a-b")]

/-- A directory that holds seventeen directories, each in the one before, under long names. -/
def deep : Disk where
  entries := ([Text.ofString "s"], .directory) :: (List.range 17).map fun n =>
    (Text.ofString "s" :: List.replicate (n + 1) (List.replicate 250 (.char 'n')), .directory)

/-- The path of the innermost of them. -/
def deepest : Path :=
  entryPath ⟨.single, ["s"]⟩ (List.replicate 17 (List.replicate 250 (.char 'n')))

end Archive

end ProviderKit
