import Mathlib.Data.List.Perm.Subperm
import ProviderKit.Proofs.Disk.Resolving

/-!
# Real paths and walks

A real path is found from the text of a path, link by link, and a walk of the disk goes from place
to place. Where a walk arrives at a directory the real path is found, and leads there
(`realPath_of_find`): every link on the way is resolved with fewer links left than the walk had when
it came to it, so none is met again while it is being resolved. `Disk.Arrives` is what holds of the
names that are left, and each kind of name keeps it.
-/

namespace ProviderKit.Disk

/-! ## Walks with more links -/

/-- A walk that arrives does so also if it may follow more links. -/
theorem walk_more {disk : Disk} {through : Bool} {links more : Nat} (hle : links ≤ more)
    {here p : Place} {names : List Text} (h : walk disk through links here names = .ok p) :
    walk disk through more here names = .ok p := by
  rw [walk_eq_ok] at h ⊢
  induction h generalizing more with
  | arrived => exact .arrived
  | dot hhere _ ih => exact .dot hhere (ih hle)
  | up hhere _ ih => exact .up hhere (ih hle)
  | free hlooks hfree hp => exact .free hlooks hfree hp
  | stop hlooks hlink hstays hp => exact .stop hlooks hlink hstays hp
  | @follow links _ _ _ _ hlooks hlink hmore _ ih =>
    obtain ⟨more, rfl⟩ := Nat.exists_eq_add_of_le' (Nat.le_trans (Nat.le_add_left 1 links) hle)
    exact .follow hlooks hlink hmore (ih (Nat.le_of_succ_le_succ hle))
  | down hlooks hentry hnolink _ ih => exact .down hlooks hentry hnolink (ih hle)

/-- A walk that arrives along two parts of its names arrives along the first and from there along
the second. -/
theorem walk_parts {disk : Disk} {links : Nat} {here p : Place} {names rest : List Text}
    (h : walk disk true links here (names ++ rest) = .ok p) :
    ∃ q, walk disk true links here names = .ok q ∧ walk disk true links q rest = .ok p := by
  by_cases hrest : rest = []
  · subst hrest
    rw [List.append_nil] at h
    exact ⟨p, h, walk_eq_ok.2 .arrived⟩
  obtain ⟨left, hle, q, harrives, -, hgoes⟩ := walk_append hrest h
  exact ⟨q, harrives, walk_more hle hgoes⟩

/-! ## Resolving what a walk follows -/

/-- A disk as a machine keeps it: its names are names, its links can be followed, and the places of
its links can be named by a path. -/
structure Ordinary (disk : Disk) : Prop where
  names : ∀ p entry, disk.get? p = some entry → ∀ name ∈ p, IsName name
  targets : ∀ p target, disk.get? p = some (.link target) → Usable target
  short : ∀ p target, disk.get? p = some (.link target) →
    Utf8.losslessSize (⟨.single, p⟩ : Path).text < pathLimit

/-- A disk has no more links than entries. -/
theorem length_le_of_links {disk : Disk} {places : List Place} (hdistinct : places.Nodup)
    (hlinks : ∀ p ∈ places, ∃ target, disk.get? p = some (.link target)) :
    places.length ≤ disk.entries.length := by
  have hlisted : places ⊆ disk.entries.map Prod.fst := by
    intro p hp
    obtain ⟨target, hlink⟩ := hlinks p hp
    have hroot : p ≠ [] := by
      rintro rfl
      rw [get?_root] at hlink
      cases hlink
    rw [get?_of_ne_root hroot] at hlink
    exact List.mem_map.2 ⟨_, mem_of_find? hlink, rfl⟩
  have hcount := (List.Nodup.subperm hdistinct hlisted).length_le
  rwa [List.length_map] at hcount

/-- A real path keeps the last of the names: nothing is found there, or no link. -/
def Kept (disk : Disk) (names : List Text) : Prop :=
  (∃ fault, disk.find false ⟨.single, names⟩ = .error fault ∧ fault.isPathText = false) ∨
    ∃ p entry, disk.find false ⟨.single, names⟩ = .ok (p, entry) ∧ entry.isLink = false

/-- The names are read as those of the place. -/
structure Denotes (names : List Text) (place : Place) : Prop where
  read : names.map Utf8.canonical = place
  usable : ∀ name ∈ names, Usable name

namespace Denotes

variable {names : List Text} {place : Place}

/-- No names denote the root. -/
theorem nil : Denotes [] [] := ⟨rfl, by simp⟩

/-- With a name less they denote the directory above. -/
theorem dropLast (h : Denotes names place) : Denotes names.dropLast place.dropLast :=
  ⟨by rw [List.map_dropLast, h.read],
    fun name hname => h.usable name (List.dropLast_subset _ hname)⟩

/-- With a name more they denote what has that name. -/
theorem concat (h : Denotes names place) {name last : Text} (husable : Usable name)
    (hread : Utf8.canonical name = last) : Denotes (names ++ [name]) (place ++ [last]) := by
  refine ⟨by rw [List.map_append, h.read, List.map_singleton, hread], fun n hn => ?_⟩
  rcases List.mem_append.1 hn with hold | hnew
  · exact h.usable n hold
  · exact List.mem_singleton.1 hnew ▸ husable

/-- Where a target is taken from is denoted like the directory of the link. -/
theorem start (h : Denotes names place) (target : Text) :
    Denotes (targetStart names target) (targetStart place target) := by
  unfold targetStart
  split
  · exact .nil
  · exact h

/-- Names that denote an entry lead down. -/
theorem leadsDown (h : Denotes names place) {disk : Disk} (hdisk : disk.Ordinary) {entry : Entry}
    (hentry : disk.get? place = some entry) : ∀ name ∈ names, LeadsDown name := by
  intro name hname
  refine leadsDown_of_isName (hdisk.names _ _ hentry _ ?_)
  rw [← h.read]
  exact List.mem_map_of_mem hname

variable {disk other : Disk} (hwf : disk.WellFormed) (hdisk : disk.Ordinary)
  (hext : Extended disk other)
include hwf hdisk hext

/-- A link is found by the names that denote its place. -/
theorem find_link (h : Denotes names place) {target : Text}
    (hlink : disk.get? place = some (.link target)) :
    other.find false ⟨.single, names⟩ = .ok (place, .link target) := by
  have hnames := hdisk.names _ _ hlink
  have hshort : Utf8.losslessSize (⟨.single, names⟩ : Path).text < pathLimit := by
    rw [← losslessSize_text_canonical, h.read]
    exact hdisk.short _ _ hlink
  have hwalk : walk disk false linkLimit [] (readNames ⟨.single, names⟩) = .ok place := by
    rw [readNames, h.read]
    exact hwf.walk_along hnames hlink (by simp)
  have hlocate := locate_of_walk (isGivable_of_usable h.usable hshort) hwalk
  exact find_eq_ok.2 ⟨locate_kept hext hlocate, hext.link hlink⟩

/-- A directory is found by the names that denote its place, if these are not too many. -/
theorem find_directory (h : Denotes names place) (hdirectory : disk.get? place = some .directory) :
    Kept other names := by
  have hplain : ∀ name ∈ names, IsPlain (Utf8.canonical name) := by
    intro name hname
    refine (hdisk.names _ _ hdirectory _ ?_).plain
    rw [← h.read]
    exact List.mem_map_of_mem hname
  have hlinks : ∀ q, q <+: names.map Utf8.canonical → q ≠ names.map Utf8.canonical → ∀ target,
      other.get? q ≠ some (.link target) := by
    rw [h.read]
    rintro q ⟨rest, rfl⟩ hne target hlink
    have hrest : rest ≠ [] := fun hnil => hne (by rw [hnil, List.append_nil])
    by_cases hq : disk.get? q = some .directory
    · rw [hext.directory hq] at hlink
      cases hlink
    · rw [hwf.below hq hrest] at hdirectory
      cases hdirectory
  rcases find_straight other h.usable hplain hlinks with hfault | ⟨entry, hfound⟩
  · exact .inl hfault
  · refine .inr ⟨_, entry, hfound, ?_⟩
    have hentry := (find_eq_ok.1 hfound).2
    rw [h.read, hext.directory hdirectory] at hentry
    cases hentry
    rfl

end Denotes

/-- The written names are those that a walk follows, in any form, beside names that say nothing. -/
inductive Spells : List Text → List Text → Prop
  | nil : Spells [] []
  | idle {name : Text} {raw names : List Text} :
    saysNothing name = true → Spells raw names → Spells (name :: raw) names
  | dot {raw names : List Text} : Spells raw names → Spells raw (Text.ofString "." :: names)
  | name {name followed : Text} {raw names : List Text} :
    followed = name ∨ followed = Utf8.canonical name → Spells raw names →
      Spells (name :: raw) (followed :: names)

namespace Spells

/-- The names of a path are read as a disk reads them. -/
theorem path (names : List Text) : Spells names (names.map Utf8.canonical) := by
  induction names with
  | nil => exact .nil
  | cons name names ih => exact .name (.inr rfl) ih

/-- A dot at the end of a walk says nothing. -/
theorem concat {raw names : List Text} (h : Spells raw names) :
    Spells raw (names ++ [Text.ofString "."]) := by
  induction h with
  | nil => exact .dot .nil
  | idle hidle _ ih => exact .idle hidle ih
  | dot _ ih => exact .dot ih
  | name hname _ ih => exact .name hname ih

/-- The names of a target are followed without those that say nothing. -/
theorem target (target : Text) : Spells (writtenNames target) (targetNames target) := by
  have hfilter : ∀ raw : List Text, Spells raw (raw.filter fun name =>
      !name.isEmpty && name != Text.ofString ".") := by
    intro raw
    induction raw with
    | nil => exact .nil
    | cons name raw ih =>
      rw [List.filter_cons]
      split
      · exact .name (.inl rfl) ih
      next hnot =>
        refine .idle ?_ ih
        rw [saysNothing]
        by_cases hempty : name.isEmpty = true
        · rw [hempty]
          rfl
        · simpa [hempty] using hnot
  have hnames : Spells (writtenNames target) (Path.namesOf target) := by
    unfold writtenNames Path.namesOf
    split
    next hslash =>
      cases target with
      | nil => cases hslash
      | cons c target =>
        obtain rfl : c = .char '/' := by simpa using hslash
        exact hfilter _
    next => exact hfilter _
  unfold targetNames
  dsimp only
  split
  · exact hnames.concat
  · exact hnames

end Spells

/-- Real paths can be found on the second disk along the walks of the first one: its links are found
there, and where it has a directory no link is. -/
structure Guides (disk other : Disk) : Prop where
  names : ∀ p entry, disk.get? p = some entry → ∀ name ∈ p, IsName name
  targets : ∀ p target, disk.get? p = some (.link target) → Usable target
  link : ∀ names place target, Denotes names place → disk.get? place = some (.link target) →
    other.find false ⟨.single, names⟩ = .ok (place, .link target)
  directory : ∀ names place, Denotes names place → disk.get? place = some .directory →
    Kept other names

/-- A disk on which entries have come is guided by the disk as it was. -/
theorem Guides.of_extended {disk other : Disk} (hwf : disk.WellFormed) (hdisk : disk.Ordinary)
    (hext : Extended disk other) : Guides disk other :=
  ⟨hdisk.names, hdisk.targets, fun _ _ _ hdenotes => hdenotes.find_link hwf hdisk hext,
    fun _ _ hdenotes => hdenotes.find_directory hwf hdisk hext⟩

/-- Names that denote the place are kept in a real path as they are, and so is its last name. -/
structure IsEnd (disk : Disk) (place : Place) : Prop where
  kept : ∀ names, Denotes names place → Kept disk names
  last : ∀ parent name, place = parent ++ [name] → name ≠ [] ∧ Utf8.canonical name = name

namespace Guides

variable {disk other : Disk}

/-- The links of the first disk are on the second one. -/
theorem get?_link (h : Guides disk other) {p : Place} {target : Text}
    (hlink : disk.get? p = some (.link target)) : other.get? p = some (.link target) := by
  have hnames := h.names _ _ hlink
  exact (find_eq_ok.1 (h.link p p target ⟨map_canonical hnames, fun name hname =>
    (hnames name hname).usable⟩ hlink)).2

/-- A walk may end at a directory. -/
theorem isEnd (h : Guides disk other) {p : Place} (hp : disk.get? p = some .directory) :
    IsEnd other p := by
  refine ⟨fun names hdenotes => h.directory names p hdenotes hp, ?_⟩
  rintro parent name rfl
  have hname := h.names _ _ hp name (by simp)
  exact ⟨hname.nonempty, hname.canonical⟩

/-- Where more names are followed, a walk may end. -/
theorem isEnd_of_walk (h : Guides disk other) {links : Nat} {q p : Place} {names : List Text}
    (hend : IsEnd other p) (hwalk : walk disk true links q names = .ok p) : IsEnd other q := by
  rw [walk_eq] at hwalk
  cases names with
  | nil =>
    rw [followNames_nil] at hwalk
    rw [Except.ok.inj hwalk]
    exact hend
  | cons name rest => exact h.isEnd (followNames_step hwalk).1

end Guides

/-- Links are being resolved: as many as the depth that is gone, each a link of the disk, and none
of which leads anywhere with the links that are left. -/
structure Underway (disk : Disk) (links depth room : Nat) (pending : List Path) : Prop where
  distinct : (pending.map readNames).Nodup
  link : ∀ path ∈ pending, ∃ target, disk.get? (readNames path) = some (.link target)
  stuck : ∀ path ∈ pending, ∀ parent name, readNames path = parent ++ [name] → ∀ q,
    walk disk true links parent [name] ≠ .ok q
  deep : room < depth + pending.length

namespace Underway

variable {disk other : Disk} {links depth room : Nat} {pending : List Path}

/-- While fewer links are being resolved than there are entries, one more can be. -/
theorem depth_ne_zero (h : Underway disk links depth other.entries.length pending)
    (hguides : Guides disk other) : depth ≠ 0 := by
  have hlinks : ∀ p ∈ pending.map readNames, ∃ target, other.get? p = some (.link target) := by
    intro p hp
    obtain ⟨path, hpath, rfl⟩ := List.mem_map.1 hp
    obtain ⟨target, hlink⟩ := h.link path hpath
    exact ⟨target, hguides.get?_link hlink⟩
  have hcount := length_le_of_links h.distinct hlinks
  rw [List.length_map] at hcount
  have := h.deep
  omega

/-- A link that leads somewhere is not being resolved. -/
theorem not_mem (h : Underway disk links depth room pending) {path : Path} {parent q : Place}
    {name : Text} (hread : readNames path = parent ++ [name])
    (hwalk : walk disk true links parent [name] = .ok q) :
    readNames path ∉ pending.map readNames := by
  intro hmem
  obtain ⟨same, hsame, heq⟩ := List.mem_map.1 hmem
  exact h.stuck same hsame parent name (heq.trans hread) q hwalk

/-- A link comes to be resolved, with no more links left than those with which it leads nowhere. -/
theorem push (h : Underway disk links (depth + 1) room pending) {path : Path} {parent q : Place}
    {name target : Text} (hread : readNames path = parent ++ [name])
    (hlink : disk.get? (parent ++ [name]) = some (.link target))
    (hwalk : walk disk true links parent [name] = .ok q) {fewer : Nat} (hle : fewer ≤ links)
    (hstuck : ∀ q, walk disk true fewer parent [name] ≠ .ok q) :
    Underway disk fewer depth room (path :: pending) := by
  refine ⟨?_, fun other hother => ?_, fun other hother dir last hlast p hp => ?_, ?_⟩
  · rw [List.map_cons, List.nodup_cons]
    exact ⟨h.not_mem hread hwalk, h.distinct⟩
  · rcases List.mem_cons.1 hother with rfl | hold
    · exact ⟨target, hread ▸ hlink⟩
    · exact h.link other hold
  · rcases List.mem_cons.1 hother with rfl | hold
    · obtain ⟨rfl, hname⟩ := List.append_inj' (hlast.symm.trans hread) rfl
      obtain rfl := List.singleton_inj.1 hname
      exact hstuck p hp
    · exact h.stuck other hold dir last hlast p (walk_more hle hp)
  · rw [List.length_cons]
    have := h.deep
    omega

end Underway

/-- A link that leads somewhere does so with a least number of links, and then its target does with
one link less. -/
theorem least_links {disk : Disk} {links : Nat} {parent q : Place} {name target : Text}
    (hparent : disk.get? parent = some .directory) (hplain : IsPlain name)
    (hshort : Utf8.losslessSize name ≤ nameLimit)
    (hlink : disk.get? (parent ++ [name]) = some (.link target))
    (h : walk disk true links parent [name] = .ok q) :
    ∃ fewer < links, walk disk true fewer (targetStart parent target) (targetNames target) = .ok q ∧
      ∀ q, walk disk true fewer parent [name] ≠ .ok q := by
  have hgoes : ∀ links, walk disk true links parent [name] =
      behind disk links true (targetStart parent target) (targetNames target) := by
    intro links
    rw [walk_eq, followNames_plain hparent hplain hshort, hlink]
    simp
  induction links with
  | zero =>
    rw [hgoes] at h
    cases h
  | succ links ih =>
    by_cases hless : ∃ p, walk disk true links parent [name] = .ok p
    · obtain ⟨p, hp⟩ := hless
      obtain rfl : p = q := Except.ok.inj ((walk_more (Nat.le_succ links) hp).symm.trans h)
      obtain ⟨fewer, hlt, hleast⟩ := ih hp
      exact ⟨fewer, Nat.lt_succ_of_lt hlt, hleast⟩
    · rw [hgoes] at h
      exact ⟨links, Nat.lt_succ_self _, h, fun p hp => hless ⟨p, hp⟩⟩

/-- The names of a target can be given to a disk if the target can. -/
theorem usable_of_mem_writtenNames {target name : Text} (h : Usable target)
    (hname : name ∈ writtenNames target) : Usable name := by
  refine h.subset ?_
  unfold writtenNames at hname
  split at hname
  · exact List.Subset.trans (Text.subset_of_mem_split hname) (List.drop_subset _ _)
  · exact Text.subset_of_mem_split hname

/-- A name that is followed as a plain one is spelled by one that leads down. -/
theorem leadsDown_of_followed {name followed : Text}
    (hname : followed = name ∨ followed = Utf8.canonical name) (hplain : IsPlain followed)
    (hnonempty : followed ≠ []) : LeadsDown name := by
  have hdots : ∀ s : String, name = Text.ofString s → followed = Text.ofString s := by
    rintro s rfl
    rcases hname with rfl | rfl
    · rfl
    · exact Utf8.canonical_ofString s
  have hblank : name.isEmpty = false := by
    rw [← Bool.not_eq_true, List.isEmpty_iff]
    rintro rfl
    rcases hname with rfl | rfl
    · exact hnonempty rfl
    · exact hnonempty (Utf8.canonical_ofString "")
  refine ⟨?_, fun hup => hplain.2 (hdots ".." hup)⟩
  rw [saysNothing, hblank, Bool.false_or, decide_eq_false_iff_not]
  exact fun hdot => hplain.1 (hdots "." hdot)

/-- Names are resolved to names that lead to a place, through links that nest no deeper than so
many. -/
def Arrives (disk : Disk) (depth : Nat) (pending : List Path) (here raw : List Text) (p : Place)
    (links : Nat) : Prop :=
  ∃ real, resolveWith disk depth pending here raw = .ok (real, true) ∧ Denotes real p ∧
    ∀ known, (traceWith disk depth pending known here raw).levels ≤ links

namespace Arrives

variable {disk : Disk} {depth links : Nat} {pending : List Path} {here raw : List Text}
  {name : Text} {p : Place}

/-- At the place that is reached without further names nothing is resolved. -/
theorem nil (h : Denotes here p) : Arrives disk depth pending here [] p links :=
  ⟨here, by rw [resolveWith_eq, resolveNames], h, fun known => by
    rw [traceWith_eq, traceNames]; exact Nat.zero_le links⟩

/-- A name that says nothing does not matter. -/
theorem idle (hidle : saysNothing name = true) (h : Arrives disk depth pending here raw p links) :
    Arrives disk depth pending here (name :: raw) p links := by
  unfold Arrives
  simp only [resolveWith_eq, traceWith_eq, resolveNames_idle hidle, traceNames_idle hidle]
  simp only [← resolveWith_eq, ← traceWith_eq]
  exact h

/-- Two dots take a name away. -/
theorem up (h : Arrives disk depth pending here.dropLast raw p links) :
    Arrives disk depth pending here (Text.ofString ".." :: raw) p links := by
  unfold Arrives
  simp only [resolveWith_eq, traceWith_eq, resolveNames_up, traceNames_up]
  simp only [← resolveWith_eq, ← traceWith_eq]
  exact h

/-- A name that is no link is kept. -/
theorem kept (hdown : LeadsDown name)
    (hkept : (∃ fault, disk.find false ⟨.single, here ++ [name]⟩ = .error fault ∧
        fault.isPathText = false) ∨
      ∃ place entry, disk.find false ⟨.single, here ++ [name]⟩ = .ok (place, entry) ∧
        entry.isLink = false)
    (h : Arrives disk depth pending (here ++ [name]) raw p links) :
    Arrives disk depth pending here (name :: raw) p links := by
  unfold Arrives
  simp only [resolveWith_eq, traceWith_eq, resolveNames_kept hdown hkept,
    traceNames_kept hdown hkept]
  simp only [← resolveWith_eq, ← traceWith_eq]
  exact h

/-- A link is resolved with what its target is resolved to, if the links on the way there nest less
deep. -/
theorem link (hdown : LeadsDown name) {q : Place} {target : Text} {real : List Text} {fewer : Nat}
    (hfound : disk.find false ⟨.single, here ++ [name]⟩ = .ok (q, .link target))
    (hnew : pending.contains ⟨.single, here ++ [name]⟩ = false)
    (hreal : resolveWith disk depth (⟨.single, here ++ [name]⟩ :: pending) (targetStart here target)
      (writtenNames target) = .ok (real, true))
    (hlevels : ∀ known, (traceWith disk depth (⟨.single, here ++ [name]⟩ :: pending) known
      (targetStart here target) (writtenNames target)).levels ≤ fewer) (hlt : fewer < links)
    (h : Arrives disk (depth + 1) pending real raw p links) :
    Arrives disk (depth + 1) pending here (name :: raw) p links := by
  obtain ⟨all, hall, hallPlace, hallLevels⟩ := h
  refine ⟨all, ?_, hallPlace, fun known => ?_⟩
  · rw [resolveWith_eq] at hall ⊢
    rw [resolveNames_link hdown hfound, hnew]
    simp only [Bool.false_eq_true, if_false, beyond, hreal]
    exact hall
  · rw [traceWith_eq]
    refine levels_traceNames_link hdown hfound
      (fun _ => Nat.lt_of_le_of_lt (hlevels known) hlt) fun after names hnames => ?_
    have houtcome := outcome_traceWith disk depth (⟨.single, here ++ [name]⟩ :: pending) known
      (targetStart here target) (writtenNames target)
    obtain ⟨rfl, -⟩ := Prod.mk.inj (Except.ok.inj (hnames.symm.trans (houtcome.trans hreal)))
    rw [← traceWith_eq]
    exact hallLevels after

end Arrives

/-- Names along which a walk arrives where it may end are resolved, and the resolved names lead to
that place, through links that nest no deeper than the walk may follow links. The walk is followed
on the first disk, the names are resolved on the second one. -/
theorem arrives_of_walk {disk other : Disk} (hguides : Guides disk other) {links depth : Nat}
    {pending : List Path} (hunderway : Underway disk links depth other.entries.length pending)
    {raw names here : List Text} (hspells : Spells raw names) {place p : Place}
    (hhere : Denotes here place) (hraw : ∀ name ∈ raw, Usable name)
    (hwalk : walk disk true links place names = .ok p) (hend : IsEnd other p) :
    Arrives other depth pending here raw p links := by
  -- The outer induction is on the links that are left, the inner one on the names.
  induction links using Nat.strongRecOn generalizing depth pending raw names here place p with
  | ind links ihlinks =>
  induction hspells generalizing here place with
  | nil =>
    rw [walk_eq, followNames_nil] at hwalk
    obtain rfl := Except.ok.inj hwalk
    exact .nil hhere
  | idle hidle _ ih =>
    exact .idle hidle (ih hhere (fun n hn => hraw n (List.mem_cons_of_mem _ hn)) hwalk)
  | dot _ ih =>
    have hplace := (followNames_step (walk_eq disk .. ▸ hwalk)).1
    rw [walk_eq, followNames_dot hplace, ← walk_eq] at hwalk
    exact ih hhere hraw hwalk
  | @name name followed raw names hname _ ih =>
    have hraw' : ∀ n ∈ raw, Usable n := fun n hn => hraw n (List.mem_cons_of_mem _ hn)
    have husable := hraw name List.mem_cons_self
    have hdots : ∀ s, (∀ b ∈ Utf8.encodeLossless (Text.ofString s), b.toNat < 0x80) →
        followed = Text.ofString s → name = Text.ofString s := by
      rintro s hs rfl
      rcases hname with hsame | hcanonical
      · exact hsame.symm
      · exact eq_of_canonical_eq husable hs hcanonical.symm
    have hread : Utf8.canonical followed = followed → Utf8.canonical name = followed := by
      intro hsame
      rcases hname with rfl | hcanonical
      · exact hsame
      · exact hcanonical.symm
    have hentryName : ∀ entry, disk.get? (place ++ [followed]) = some entry → IsName followed :=
      fun entry hentry => hguides.names _ _ hentry followed (by simp)
    rw [← List.singleton_append] at hwalk
    obtain ⟨q, hto, hfrom⟩ := walk_parts hwalk
    rw [walk_eq] at hwalk
    obtain ⟨hplace, hcases⟩ := followNames_step hwalk
    rcases hcases with ⟨hdot, hrest⟩ | ⟨hup, hrest⟩ | ⟨hplain, hshort, hcases⟩
    · obtain rfl := hdots "." (by decide +kernel) hdot
      rw [← walk_eq] at hrest
      exact .idle rfl (ih hhere hraw' hrest)
    · obtain rfl := hdots ".." (by decide +kernel) hup
      rw [← walk_eq] at hrest
      exact .up (ih hhere.dropLast hraw' hrest)
    rcases hcases with ⟨hfree, rfl, rfl⟩ | ⟨target, -, -, hfalse, -⟩ | ⟨target, hlink, -, -⟩ |
      ⟨entry, hentry, -, hrest⟩
    · -- At a free place nothing is left but names that say nothing.
      obtain ⟨hnonempty, hcanonical⟩ := hend.last _ _ rfl
      have hdenotes := hhere.concat husable (hread hcanonical)
      exact .kept (leadsDown_of_followed hname hplain hnonempty) (hend.kept _ hdenotes)
        (ih hdenotes hraw' (by rw [walk_eq, followNames_nil]))
    · cases hfalse
    · have hisName := hentryName _ hlink
      have hdenotes := hhere.concat husable (hread hisName.canonical)
      have hreads : readNames ⟨.single, here ++ [name]⟩ = place ++ [followed] := hdenotes.read
      have hnew : pending.contains ⟨.single, here ++ [name]⟩ = false := by
        rw [← Bool.not_eq_true, List.contains_iff_mem]
        exact fun hmem => hunderway.not_mem hreads hto (List.mem_map_of_mem hmem)
      obtain ⟨depth, rfl⟩ := Nat.exists_eq_succ_of_ne_zero (hunderway.depth_ne_zero hguides)
      -- The target is resolved with the fewest links with which it leads anywhere.
      obtain ⟨fewer, hlt, htarget, hstuck⟩ := least_links hplace hplain hshort hlink hto
      obtain ⟨real, hreal, hrealPlace, hlevels⟩ :=
        ihlinks fewer hlt (hunderway.push hreads hlink hto (Nat.le_of_lt hlt) hstuck)
          (.target target) (hhere.start target)
          (fun _ hn => usable_of_mem_writtenNames (hguides.targets _ _ hlink) hn) htarget
          (hguides.isEnd_of_walk hend hfrom)
      exact .link (leadsDown_of_followed hname hplain hisName.nonempty)
        (hguides.link _ _ _ hdenotes hlink) hnew hreal hlevels hlt (ih hrealPlace hraw' hfrom)
    · rw [← walk_eq] at hrest
      have hisName := hentryName _ hentry
      have hdenotes := hhere.concat husable (hread hisName.canonical)
      exact .kept (leadsDown_of_followed hname hplain hisName.nonempty)
        ((hguides.isEnd_of_walk hend hrest).kept _ hdenotes) (ih hdenotes hraw' hrest)

/-- No links are being resolved at first. -/
theorem Underway.start (disk : Disk) (links room : Nat) : Underway disk links (room + 1) room [] :=
  ⟨List.nodup_nil, by simp, by simp, Nat.lt_succ_self _⟩

/-- The path of the names that tracing reaches. -/
theorem path_trace (disk : Disk) (path : Path) :
    (disk.trace path).path = (resolveWith disk (disk.entries.length + 1) [] [] path.names).map
      fun reached => ⟨.single, Path.collapse (reached.1.filter fun name =>
        !name.isEmpty && name != Text.ofString ".")⟩ := by
  have houtcome : (disk.trace path).outcome =
      resolveWith disk (disk.entries.length + 1) [] [] path.names :=
    outcome_traceWith disk _ [] [] [] path.names
  rw [Trace.path, houtcome]
  rcases resolveWith disk (disk.entries.length + 1) [] [] path.names with fault | ⟨names, whole⟩ <;>
  rfl

section RealPath

variable [Interpreter]

/-- The links on the way along a path nest no deeper than they can be resolved. -/
def Resolvable (disk : Disk) (path : Path) : Prop :=
  (disk.trace path).levels ≤ Interpreter.resolving

instance (disk : Disk) (path : Path) : Decidable (disk.Resolvable path) :=
  inferInstanceAs (Decidable (_ ≤ _))

/-- The real path of a path is that of the names that are reached, if the links on the way can be
resolved. -/
theorem realPath_eq_ok {disk : Disk} {path real : Path} :
    disk.realPath path = .ok real ↔ disk.Resolvable path ∧ (disk.trace path).path = .ok real := by
  rw [realPath]
  by_cases hlevels : Interpreter.resolving < (disk.trace path).levels
  · rw [if_pos hlevels]
    exact ⟨nofun, fun h => absurd h.1 (Nat.not_le.2 hlevels)⟩
  · rw [if_neg hlevels]
    exact ⟨fun h => ⟨Nat.not_lt.1 hlevels, h⟩, And.right⟩

/-- The real path of a path whose names are resolved through links that do not nest too deep. -/
theorem realPath_of_resolved {disk : Disk} {path : Path} {names : List Text} {whole : Bool}
    (hresolved : resolveWith disk (disk.entries.length + 1) [] [] path.names = .ok (names, whole))
    (hlevels : disk.Resolvable path) :
    disk.realPath path = .ok ⟨.single, Path.collapse (names.filter fun name =>
      !name.isEmpty && name != Text.ofString ".")⟩ :=
  realPath_eq_ok.2 ⟨hlevels, by rw [path_trace, hresolved]; rfl⟩

/-- A path along which a walk comes to a directory has a real path, which leads there, also when
entries have come since. -/
theorem realPath_of_walk {disk other : Disk} (hwf : disk.WellFormed) (hdisk : disk.Ordinary)
    (hext : Extended disk other) {path : Path} {place : Place}
    (husable : ∀ name ∈ path.names, Usable name)
    (hwalk : walk disk true linkLimit [] (readNames path) = .ok place)
    (hdirectory : disk.get? place = some .directory) :
    ∃ real, other.realPath path = .ok ⟨.single, real⟩ ∧ Denotes real place := by
  have hguides := Guides.of_extended hwf hdisk hext
  obtain ⟨real, hreal, hdenotes, hlevels⟩ := arrives_of_walk hguides (.start disk linkLimit _)
    (.path path.names) .nil husable hwalk (hguides.isEnd hdirectory)
  have hnames := hdenotes.leadsDown hdisk hdirectory
  refine ⟨real, ?_, hdenotes⟩
  have hcollapse := collapse_below hnames (show lexical [] [] = some [] from rfl)
  rw [List.append_nil] at hcollapse
  rw [realPath_of_resolved hreal (Nat.le_trans (hlevels []) Interpreter.resolves), hcollapse]

/-- A path that leads to a directory has a real path, which leads there, also when entries have come
since. -/
theorem realPath_of_find {disk other : Disk} (hwf : disk.WellFormed) (hdisk : disk.Ordinary)
    (hext : Extended disk other) {path : Path} {place : Place}
    (h : disk.find true path = .ok (place, .directory)) :
    ∃ real, other.realPath path = .ok ⟨.single, real⟩ ∧ Denotes real place := by
  obtain ⟨hlocate, hdirectory⟩ := find_eq_ok.1 h
  obtain ⟨hgivable, hwalk⟩ := walk_of_locate hlocate
  exact realPath_of_walk hwf hdisk hext (usable_of_isGivable hgivable) hwalk hdirectory

end RealPath

end ProviderKit.Disk
