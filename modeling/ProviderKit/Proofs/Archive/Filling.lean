import ProviderKit.Proofs.Archive.Containment
import ProviderKit.Proofs.Archive.Packing
import ProviderKit.Proofs.Archive.Unpacking
import ProviderKit.Proofs.Disk.Nameable

/-!
# Unpacking a packed tree

The members of a portable tree are unpacked one after the other into an empty directory. After each
of them the directory holds the entries unpacked so far and nothing else (`Filling`), so the next
one may be unpacked, and comes to a free place (`unpackMember_fills`). In the end the directory
holds the tree (`unpack_fills`).
-/

namespace ProviderKit.Archive

open Disk (IsName Usable Denotes writtenNames)
open Unpack

/-- An entry as it comes out of an archive: the permissions of a file are restricted. -/
def unpackedEntry : Entry → Entry
  | .file mode content => .file mode.unpacked content
  | entry => entry

/-- The directory on a fresh disk holds the given entries as they come out of an archive, each under
the names that lead to it from there, and nothing else has changed. -/
structure Filling (fresh : Disk) (target : Place) (done : List (Place × Entry)) (other : Disk) :
    Prop where
  wellFormed : other.WellFormed
  directory : other.get? target = some .directory
  inside : ∀ x entry, x ≠ [] → (other.get? (target ++ x) = some entry ↔
    ∃ packed, (x, packed) ∈ done ∧ entry = unpackedEntry packed)
  outside : ∀ p, ¬ target <+: p → other.get? p = fresh.get? p
  sharers : ∀ p, other.sharers p = fresh.sharers p

/-- A portable tree can be unpacked into a directory: it is empty, its path leads there by links
that can be named, and every entry in it can be named; and the links of the tree nest no deeper than
the interpreter resolves them. -/
structure Ready [Interpreter] (disk : Disk) (place : Place) (fresh : Disk) (target : Place)
    (directory : Path) :
    Prop where
  tree : disk.WellFormed
  portable : Portable disk place
  settled : Settled disk place
  nested : Nests disk place Interpreter.resolving
  base : fresh.Regular
  found : fresh.nameable.find true directory = .ok (target, .directory)
  empty : ∀ x, x ≠ [] → fresh.get? (target ++ x) = none
  givable : ∀ x entry, disk.get? (place ++ x) = some entry →
    Disk.IsGivable ⟨directory.root, directory.names ++ x⟩

variable {disk other fresh : Disk} {place target : Place} {directory : Path}
  {done : List (Place × Entry)}

/-- The path of the directory leads there. -/
theorem Ready.there [Interpreter] (h : Ready disk place fresh target directory) :
    fresh.find true directory = .ok (target, .directory) :=
  Disk.find_directory_of_extended fresh.nameable_extended h.found

namespace Filling

/-- An entry comes to a free place. -/
theorem add (hfill : Filling fresh target done other) {x : Place} (hx : x ≠ []) {entry : Entry}
    (hfree : other.get? (target ++ x) = none) {left : Disk} (hwf : left.WellFormed)
    (hhere : left.get? (target ++ x) = some (unpackedEntry entry))
    (helsewhere : ∀ p, p ≠ target ++ x → left.get? p = other.get? p)
    (hsharers : ∀ p, left.sharers p = other.sharers p) :
    Filling fresh target (done ++ [(x, entry)]) left := by
  refine ⟨hwf, ?_, fun y e hy => ?_, fun p hp => ?_, fun p => ?_⟩
  · rw [helsewhere target (by simpa using hx.symm), hfill.directory]
  · by_cases heq : y = x
    · subst heq
      have hnot : ∀ packed, (y, packed) ∉ done := by
        intro packed hmem
        rw [(hfill.inside y _ hy).2 ⟨packed, hmem, rfl⟩] at hfree
        cases hfree
      rw [hhere]
      simp [hnot, eq_comm]
    · rw [helsewhere _ fun h => heq (List.append_cancel_left h), hfill.inside y e hy]
      simp [heq]
  · rw [helsewhere p fun h => hp (h ▸ List.prefix_append _ _), hfill.outside p hp]
  · rw [hsharers, hfill.sharers]

variable [Interpreter]

/-- An empty directory holds no entries. -/
theorem start (h : Ready disk place fresh target directory) : Filling fresh target [] fresh := by
  refine ⟨h.base.toWellFormed, (Disk.find_eq_ok.1 h.there).2, fun x entry hx => ?_, fun _ _ => rfl,
    fun _ => rfl⟩
  rw [h.empty x hx]
  simp

/-- The entries of the fresh disk are all there. -/
theorem extended (h : Ready disk place fresh target directory)
    (hfill : Filling fresh target done other) : Disk.Extended fresh other := by
  intro p entry hp
  by_cases hbelow : target <+: p
  · obtain ⟨x, rfl⟩ := hbelow
    by_cases hx : x = []
    · subst hx
      rw [List.append_nil] at hp ⊢
      rw [(Disk.find_eq_ok.1 h.there).2] at hp
      cases hp
      exact ⟨.directory, hfill.directory, rfl⟩
    · rw [h.empty x hx] at hp
      cases hp
  · exact ⟨entry, (hfill.outside p hbelow).trans hp, rfl⟩

/-- Entries of the tree are a part of it. -/
theorem partOf (h : Ready disk place fresh target directory)
    (hfill : Filling fresh target done other)
    (hdone : ∀ x entry, (x, entry) ∈ done → disk.get? (place ++ x) = some entry) :
    PartOf disk place other target := by
  refine ⟨hfill.wellFormed, hfill.directory,
    h.base.names _ _ (Disk.find_eq_ok.1 h.there).2, fun x text hx hget => ?_⟩
  obtain ⟨packed, hmem, hlink⟩ := (hfill.inside x _ hx).1 hget
  cases packed with
  | link => exact hlink ▸ hdone x _ hmem
  | directory => cases hlink
  | file => cases hlink

end Filling

/-! ## One member may be unpacked -/

/-- A member is stored under the names of its entry. -/
theorem memberOf_name (x : Place) (entry : Entry) : (memberOf x entry).name = Text.join "/" x := by
  cases entry <;> rfl

section Member

variable [Interpreter] (h : Ready disk place fresh target directory)
  (hfill : Filling fresh target done other)
  (hdone : ∀ x entry, (x, entry) ∈ done → disk.get? (place ++ x) = some entry)
include h hfill hdone

/-- Names that take a course in the tree lead into the directory. -/
theorem liesIn_of_course {real here names : List Text} (hreal : Denotes real target)
    (hnames : ∀ name ∈ here, IsName name) (hway : Way other target here)
    (hcourse : Course disk place other target [] here names) :
    liesIn other ⟨.single, real⟩ (here ++ names) = .ok true := by
  have hpart := hfill.partOf h hdone
  have hfollowing : Following other target real (other.entries.length + 1) [] :=
    ⟨List.nodup_nil, by simp, Nat.lt_succ_self _⟩
  obtain ⟨e, arrived, hresolved, hlexical, -, hlevels⟩ :=
    resolveWith_inside h.portable h.settled hpart hreal hfollowing hway hcourse
  have hread : (real ++ here).map Utf8.canonical = target ++ here := by
    rw [List.map_append, hreal.read, Disk.map_canonical hnames]
  have husable : ∀ name ∈ [] ++ (real ++ here), Usable name := by
    rw [List.nil_append]
    intro name hname
    rcases List.mem_append.1 hname with hroot | hbelow
    · exact hreal.usable name hroot
    · exact (hnames name hbelow).usable
  have hcanonical : ∀ name ∈ [] ++ (real ++ here), IsName (Utf8.canonical name) := by
    intro name hname
    have hmem : Utf8.canonical name ∈ target ++ here := hread ▸ List.mem_map_of_mem hname
    rcases List.mem_append.1 hmem with hroot | hbelow
    · exact hpart.names _ hroot
    · exact hnames _ hbelow
  have hlinks : ∀ q, q <+: ([] ++ (real ++ here)).map Utf8.canonical → ∀ text,
      other.get? q ≠ some (.link text) := by
    intro q hq text hlink
    rw [List.nil_append, hread] at hq
    exact hway.clear_all hpart hreal hq ⟨text, hlink⟩
  have hstraight : Disk.resolveWith other (other.entries.length + 1) [] []
      (real ++ (here ++ names)) = .ok (real ++ e, arrived) := by
    rw [← hresolved, Disk.resolveWith_eq, Disk.resolveWith_eq, ← List.append_assoc]
    exact Disk.resolveNames_straight husable hcanonical hlinks names
  have hresolvable : other.Resolvable ⟨.single, real ++ (here ++ names)⟩ := by
    have hmost := hlevels _ h.nested []
    rw [Disk.traceWith_eq] at hmost
    rw [Disk.Resolvable, Disk.trace, Disk.traceWith_eq, ← List.append_assoc,
      Disk.traceNames_straight husable hcanonical hlinks names]
    exact hmost
  obtain ⟨p, hp⟩ := Option.isSome_iff_exists.1 hlexical
  have hcollapse := Disk.collapse_below
    (hreal.leadsDown h.base.nameable_ordinary (Disk.find_eq_ok.1 h.found).2) hp
  have hreal' : other.realPath ⟨.single, real ++ (here ++ names)⟩ = .ok ⟨.single, real ++ p⟩ := by
    rw [Disk.realPath_of_resolved hstraight hresolvable, hcollapse]
  have hbelow : real.isPrefixOf (real ++ p) = true :=
    List.isPrefixOf_iff_prefix.2 (List.prefix_append _ _)
  simp only [liesIn, hreal', orFail, bind, Except.bind, pure, Except.pure, hbelow]

variable {x : Place} {entry : Entry} (hx : x ≠ [])
  (hentry : disk.get? (place ++ x) = some entry) (hfree : other.get? (target ++ x) = none)
  (habove : other.get? (target ++ x.dropLast) = some .directory)
include hx hentry hfree habove

/-- A member of the tree may be unpacked next, if its directory is there and it is not. -/
theorem accept_memberOf : accept other directory (memberOf x entry) =
    .ok (memberOf x (unpackedEntry entry)) := by
  have hnames := h.portable.names x entry hentry
  have hnames' : ∀ name ∈ x.dropLast, IsName name := fun name hname =>
    hnames name (List.dropLast_subset _ hname)
  have hpart := hfill.partOf h hdone
  obtain ⟨real, hrealPath, hreal⟩ :=
    Disk.realPath_of_find h.base.toWellFormed.nameable h.base.nameable_ordinary
      (fresh.nameable_extended.trans (hfill.extended h)) h.found
  have hway := Way.of_directory hfill.wellFormed hnames' habove
  -- The name of the member leads to its place.
  have hname : storedName (memberOf x entry) = Text.join "/" x := by
    rw [storedName, memberOf_name, dropWhile_join hnames]
  have hlies := liesIn_of_course h hfill hdone hreal hnames' hway
    (.of_name (hnames _ (List.getLast_mem hx)))
  rw [List.dropLast_append_getLast hx, ← writtenNames_join hnames hx] at hlies
  unfold accept
  simp only [hrealPath, orFail, hname, hlies, bind, Except.bind]
  cases entry with
  | directory => rfl
  | file => rfl
  | link text =>
    have hrelative := h.portable.relative x text hentry
    -- Its target takes a course from its directory; it does not come by the link itself.
    have hself : IsLink other (target ++ x) → x ∈ [] := by
      rintro ⟨t, ht⟩
      rw [hfree] at ht
      cases ht
    have hcourse : Course disk place other target [] x.dropLast (writtenNames text) :=
      .of_target h.portable h.settled hpart hentry hself (by simp) .nil (by simp)
    have hbase : liesIn other ⟨.single, real⟩
        (writtenNames (directoryText (Text.join "/" x)) ++ writtenNames text) = .ok true := by
      rw [directoryText_join hnames]
      by_cases hnil : x.dropLast = []
      · -- The name of the directory is blank, and then a slash is in front of the target.
        rw [hnil] at hcourse hway ⊢
        have hslash := liesIn_of_course h hfill hdone hreal (by simp) hway hcourse.slash
        exact hslash
      · rw [writtenNames_join hnames' hnil]
        exact liesIn_of_course h hfill hdone hreal hnames' hway hcourse
    simp only [memberOf, checkTarget, hrelative, hbase, bind, Except.bind]
    rfl

end Member

/-! ## One member is unpacked -/

/-- A member is unpacked at a path, or what stands for it. -/
theorem unpackAt_eq [Interpreter] (contents : Contents) (fuel : Nat) (path : Path)
    (source : Option Path) (before : List Member) (member : Member) :
    ∃ instead, unpackAt contents fuel path source before member =
      unpackWith contents instead path source before member := by
  cases fuel <;> exact ⟨_, rfl⟩

/-- No directory is made above a path that leads into one. -/
theorem perform_makeParent [Interpreter] {path : Path} {p : Place} {entry : Entry}
    (h : other.find true path.parent = .ok (p, entry)) :
    (makeParent path).perform other = (.ok (), other) := by
  have hthere : isThere other true path.parent = true := by rw [isThere, h]
  rw [makeParent, perform_get, hthere]
  rfl

/-- A path that leads to a free place leads there also when links are followed. -/
theorem locate_of_free {path : Path} {p : Place} (h : other.locate false path = .ok p)
    (hfree : other.get? p = none) : other.locate true path = .ok p := by
  obtain ⟨hgivable, hwalk⟩ := Disk.walk_of_locate h
  exact Disk.locate_of_walk hgivable (Disk.walk_through (by simp [hfree]) hwalk)

section Place

variable {path : Path} {parent : Place} {name : Text} (hwf : other.WellFormed)
  (hparent : other.get? parent = some .directory)
  (hlocate : other.locate false path = .ok (parent ++ [name]))
  (hfree : other.get? (parent ++ [name]) = none)
include hwf hparent hlocate hfree

/-- The second disk is the first one with an entry at a place where none was. -/
structure Added (place : Place) (entry : Entry) (disk left : Disk) : Prop where
  wellFormed : left.WellFormed
  here : left.get? place = some entry
  elsewhere : ∀ p, p ≠ place → left.get? p = disk.get? p
  sharers : ∀ p, left.sharers p = disk.sharers p

omit hlocate in
/-- A new entry at a free place in a directory is added. -/
theorem added_put (entry : Entry) :
    Added (parent ++ [name]) entry other (other.put (parent ++ [name]) entry) :=
  ⟨hwf.put hparent hfree entry, Disk.get?_put_self (by simp) _ _,
    fun _ hp => Disk.get?_put_of_ne hp _ _, hwf.sharers_put (by simp [hfree]) entry⟩

/-- A directory is unpacked at a free place. -/
theorem perform_unpackDirectory : ∃ left, (unpackDirectory path).perform other = (.ok (), left) ∧
    Added (parent ++ [name]) .directory other left := by
  refine ⟨_, ?_, added_put hwf hparent hfree .directory⟩
  rw [unpackDirectory, perform_get, Disk.makeDirectory_of_free hlocate hfree]
  rfl

/-- A link is unpacked at a free place with the target that it has. -/
theorem perform_unpackLink {text : Text} (htext : IsTarget text) :
    ∃ left, (unpackLink path text).perform other = (.ok (), left) ∧
      Added (parent ++ [name]) (.link text) other left := by
  refine ⟨_, ?_, added_put hwf hparent hfree (.link text)⟩
  have hmissing : isThere other false path = false := by
    rw [isThere, Disk.find_of_free hlocate hfree]
  have hmade : other.makeLink text path = .ok (other.put (parent ++ [name]) (.link text)) := by
    have hsome : text.isEmpty = false := by simpa using htext.nonempty
    have hshort := Nat.not_le.2 htext.short
    unfold Disk.makeLink
    simp [htext.usable.1, htext.usable.2, hsome, hlocate, hfree, htext.canonical, bind, Except.bind,
      pure, Except.pure, hshort]
  rw [unpackLink, perform_get, hmissing]
  exact perform_request hmade

/-- A file is unpacked at a free place with what it holds. -/
theorem perform_unpackFile (mode : Mode) (content : Content) :
    ∃ left, (unpackFile path mode content).perform other = (.ok (), left) ∧
      Added (parent ++ [name]) (.file mode content) other left := by
  have hadded := added_put hwf hparent hfree (.file .usual content)
  have hnoslash : other.leadsToSlash Disk.linkLimit path = false := by
    rw [Disk.leadsToSlash.eq_def]
    simp only [Disk.linkLimit, Disk.find_of_free hlocate hfree]
  have hwritten : other.write path content =
      .ok (other.put (parent ++ [name]) (.file .usual content)) := by
    unfold Disk.write
    simp [hnoslash, locate_of_free hlocate hfree, hfree, bind, Except.bind, pure, Except.pure]
  have hlocate' : (other.put (parent ++ [name]) (.file .usual content)).locate true path =
      .ok (parent ++ [name]) := by
    refine Disk.locate_of_extended (Disk.extended_put hfree _) ?_ (locate_of_free hlocate hfree)
    rw [hadded.here]
    rintro - _ ⟨⟩
  have halone : (other.put (parent ++ [name]) (.file .usual content)).sharers (parent ++ [name]) =
      [parent ++ [name]] := Disk.sharers_put_self _ _ _
  refine ⟨(other.put (parent ++ [name]) (.file .usual content)).rewrite (parent ++ [name])
    (.file mode content), ?_, hadded.wellFormed.rewrite hadded.here _ _, ?_, fun p hp => ?_,
    fun p => ?_⟩
  · rw [unpackFile, perform_bind_ok _ (perform_request hwritten), perform_get, hlocate']
    rfl
  · rw [Disk.get?_rewrite (by simp), halone, if_pos (List.mem_singleton_self _)]
  · by_cases hroot : p = []
    · rw [hroot, Disk.get?_root, Disk.get?_root]
    · rw [Disk.get?_rewrite hroot, halone, if_neg (by simpa using hp), hadded.elsewhere p hp]
  · rw [Disk.sharers_rewrite, hadded.sharers]

end Place

section Step

variable [Interpreter] (h : Ready disk place fresh target directory)
  (hfill : Filling fresh target done other)
include h hfill

/-- The path of a directory that is there leads into it. -/
theorem enters_below {y : Place} (hnames : ∀ name ∈ y, IsName name)
    (hdirectory : other.get? (target ++ y) = some .directory) :
    Disk.Enters other ⟨directory.root, directory.names ++ y⟩ (target ++ y) := by
  obtain ⟨hlocate, hfound⟩ := Disk.find_eq_ok.1 h.there
  have henters : Disk.Enters fresh directory target := ⟨(Disk.walk_of_locate hlocate).2, hfound⟩
  have henters' := henters.extended (hfill.extended h)
  refine ⟨?_, hdirectory⟩
  have hread : Disk.readNames ⟨directory.root, directory.names ++ y⟩ =
      Disk.readNames directory ++ y := by
    rw [Disk.readNames, List.map_append, Disk.map_canonical hnames]
    rfl
  rw [hread]
  by_cases hy : y = []
  · rw [hy, List.append_nil, List.append_nil]
    exact henters'.arrives
  · obtain ⟨left, hgoes⟩ := henters'.goes
    rw [hgoes true y hy]
    exact hfill.wellFormed.walk_along hnames hdirectory fun _ => rfl

/-- A member of the tree is unpacked next, and its entry is all that comes. -/
theorem unpackMember_fills
    (hdone : ∀ x entry, (x, entry) ∈ done → disk.get? (place ++ x) = some entry)
    {x : Place} {entry : Entry} (hx : x ≠ []) (hentry : disk.get? (place ++ x) = some entry)
    (hfree : other.get? (target ++ x) = none)
    (habove : other.get? (target ++ x.dropLast) = some .directory)
    (contents : Contents) (before : List Member) :
    ∃ left, (unpackMember directory contents before (memberOf x entry)).perform other =
        (.ok (), left) ∧ Filling fresh target (done ++ [(x, entry)]) left := by
  have haccept := accept_memberOf h hfill hdone hx hentry hfree habove
  have hnames := h.portable.names x entry hentry
  obtain ⟨init, last, rfl⟩ := (List.eq_nil_or_concat x).resolve_left hx
  rw [List.concat_eq_append] at *
  rw [List.dropLast_concat] at habove
  have hinit : ∀ name ∈ init, IsName name := fun name hname =>
    hnames name (List.mem_append_left _ hname)
  have hlast := hnames last (by simp)
  have henters := enters_below h hfill hinit habove
  -- The path of the member leads to its place, and the one above it into a directory.
  have hpath : pathBelow directory (memberOf (init ++ [last]) (unpackedEntry entry)).name =
      (⟨directory.root, directory.names ++ init⟩ : Path).child last := by
    rw [pathBelow, memberOf_name, memberNames_join hnames, Path.child, List.append_assoc]
  have hgivable :
      Disk.IsGivable ((⟨directory.root, directory.names ++ init⟩ : Path).child last) := by
    have hfits := h.givable _ _ hentry
    rwa [← List.append_assoc] at hfits
  have hlocate := henters.locate_name (by rw [hlast.canonical]; exact hlast.plain)
    (by rw [hlast.canonical]; exact hlast.short) hgivable
  rw [hlast.canonical, List.append_assoc] at hlocate
  have hparent :
      other.find true ((⟨directory.root, directory.names ++ init⟩ : Path).child last).parent =
        .ok (target ++ init, .directory) := by
    have hfits : Disk.IsGivable ⟨directory.root, directory.names ++ init⟩ := by
      by_cases hnil : init = []
      · rw [hnil, List.append_nil]
        exact (Disk.walk_of_locate (Disk.find_eq_ok.1 h.there).1).1
      · refine h.givable init .directory ?_
        rw [← List.append_assoc] at hentry
        exact h.tree.parent _ _ _ hentry
    rw [Path.child, Path.parent, List.dropLast_concat]
    exact Disk.find_eq_ok.2 ⟨Disk.locate_of_walk hfits henters.arrives, habove⟩
  rw [← List.append_assoc] at hlocate hfree
  have hunpacked : ∃ left, (unpackAt contents Interpreter.replacing
      ((⟨directory.root, directory.names ++ init⟩ : Path).child last) none before
      (memberOf (init ++ [last]) (unpackedEntry entry))).perform other = (.ok (), left) ∧
      Added (target ++ init ++ [last]) (unpackedEntry entry) other left := by
    obtain ⟨instead, hat⟩ := unpackAt_eq contents Interpreter.replacing
      ((⟨directory.root, directory.names ++ init⟩ : Path).child last) none before
      (memberOf (init ++ [last]) (unpackedEntry entry))
    rw [hat, unpackWith.eq_def, perform_bind_ok _ (perform_makeParent hparent)]
    cases entry with
    | directory => exact perform_unpackDirectory hfill.wellFormed habove hlocate hfree
    | file mode content =>
      exact perform_unpackFile hfill.wellFormed habove hlocate hfree mode.unpacked content
    | link text =>
      obtain ⟨left, hdone, hadded⟩ := perform_unpackLink hfill.wellFormed habove hlocate hfree
        (h.portable.targets _ text hentry)
      exact ⟨left, perform_tryCatch_ok _ hdone, hadded⟩
  obtain ⟨left, hperform, hadded⟩ := hunpacked
  rw [List.append_assoc] at hfree
  rw [List.append_assoc] at hadded
  refine ⟨left, ?_, hfill.add hx hfree hadded.wellFormed hadded.here hadded.elsewhere
    hadded.sharers⟩
  have hsource : sourceOf directory (memberOf (init ++ [last]) (unpackedEntry entry)) = none := by
    cases entry <;> rfl
  have haccepted : (Unpack.ofExcept (.ok (memberOf (init ++ [last])
      (unpackedEntry entry)))).perform other =
        (.ok (memberOf (init ++ [last]) (unpackedEntry entry)), other) := rfl
  rw [unpackMember, perform_get, haccept, perform_bind_ok _ haccepted, hpath, hsource]
  exact perform_tryCatch_ok _ hperform

/-- The members of the tree are unpacked in the order in which they are listed. -/
theorem unpackMembers_fills {listing rest : List (Place × Entry)}
    (hlists : Disk.Lists disk place listing) (hlisting : listing = done ++ rest)
    (contents : Contents) (before : List Member) :
    ∃ left, (unpackMembers directory contents before
        (rest.map fun (x, entry) => memberOf x entry)).perform other = (.ok (), left) ∧
      Filling fresh target listing left := by
  induction rest generalizing done other before with
  | nil =>
    rw [List.append_nil] at hlisting
    exact ⟨other, rfl, hlisting ▸ hfill⟩
  | cons head rest ih =>
    obtain ⟨x, entry⟩ := head
    have hdone : ∀ y e, (y, e) ∈ done → disk.get? (place ++ y) = some e := fun y e hmem =>
      ((hlists.mem y e).1 (hlisting ▸ List.mem_append_left _ hmem)).2
    obtain ⟨hx, hentry⟩ := (hlists.mem x entry).1 (by rw [hlisting]; simp)
    have hfree : other.get? (target ++ x) = none := by
      rcases hget : other.get? (target ++ x) with _ | e
      · rfl
      obtain ⟨packed, hmem, -⟩ := (hfill.inside x e hx).1 hget
      have hnodup := hlists.nodup
      rw [hlisting, List.map_append, List.map_cons, List.nodup_append] at hnodup
      exact absurd rfl
        (hnodup.2.2 x (List.mem_map_of_mem (f := Prod.fst) hmem) x List.mem_cons_self)
    have habove : other.get? (target ++ x.dropLast) = some .directory := by
      by_cases hnil : x.dropLast = []
      · rw [hnil, List.append_nil]
        exact hfill.directory
      · obtain ⟨init, last, rfl⟩ := (List.eq_nil_or_concat x).resolve_left hx
        rw [List.concat_eq_append] at *
        rw [List.dropLast_concat] at hnil ⊢
        rw [← List.append_assoc] at hentry
        have hdirectory := h.tree.parent _ _ _ hentry
        refine (hfill.inside init .directory hnil).2 ⟨.directory, ?_, rfl⟩
        exact hlists.above done _ _ rest hlisting init .directory
          ((hlists.mem init .directory).2 ⟨hnil, hdirectory⟩) (List.prefix_append _ _) (by simp)
    obtain ⟨middle, hmember, hfill'⟩ :=
      unpackMember_fills h hfill hdone hx hentry hfree habove contents before
    obtain ⟨left, hrest, hall⟩ :=
      ih hfill' (by rw [hlisting, List.append_assoc]; rfl) (memberOf x entry :: before)
    refine ⟨left, ?_, hall⟩
    rw [List.map_cons, unpackMembers, perform_bind_ok _ hmember]
    exact hrest

end Step

/-- An archive of a portable tree is unpacked into a directory that is ready for it, and then the
directory holds the tree, and nothing else has changed. -/
theorem unpack_fills [Interpreter] (h : Ready disk place fresh target directory)
    {listing : List (Place × Entry)} (hlists : Disk.Lists disk place listing) {archive : Path}
    (hread : fresh.read archive =
      .ok (.archive (listing.map fun (x, entry) => memberOf x entry))) :
    ∃ left, unpack fresh archive directory = (.ok (), left) ∧
      Filling fresh target listing left := by
  obtain ⟨left, hmembers, hfill⟩ := unpackMembers_fills h (.start h) hlists
    (List.nil_append listing).symm
    ⟨listing.map fun (x, entry) => memberOf x entry, none, none⟩ []
  refine ⟨left, ?_, hfill⟩
  have hcontents : (unpackContents directory
      ⟨listing.map fun (x, entry) => memberOf x entry, none, none⟩).perform fresh =
        (.ok (), left) := by
    rw [unpackContents, perform_bind_ok _ hmembers]
    rfl
  rw [perform] at hcontents
  rw [unpack, hread]
  dsimp only [contentsOf]
  rw [hcontents]

end ProviderKit.Archive
