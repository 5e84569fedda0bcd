import Mathlib.Data.List.Find
import Mathlib.Data.List.Nodup
import ProviderKit.Disk.Change
import ProviderKit.Disk.Real
import ProviderKit.Proofs.Disk.WellFormed

/-!
# Disks that look alike

A disk can list its entries, and the groups of places that share a file, in many orders. Two disks
are `Alike` if they show the same entries and share the same files; on disks that are in order
(`Sound`) everything that a request can do depends on that alone. Even the depth to which real paths
nest is the same, since disks that look alike and are in order have equally many entries
(`Alike.length_eq`, `Alike.realPath_eq`).
-/

namespace ProviderKit.Disk

/-! ## Disks in order -/

/-- Every place is listed once, the root is not listed, and a place is in one group at most. -/
structure Orderly (disk : Disk) : Prop where
  once : (disk.entries.map Prod.fst).Nodup
  root : [] ∉ disk.entries.map Prod.fst
  parted : ∀ group ∈ disk.shared, ∀ p ∈ group, disk.sharers p = group

/-- The disk is well-formed and in order, as every disk is that requests have made from an empty
one. -/
structure Sound (disk : Disk) : Prop extends WellFormed disk, Orderly disk

/-- The places that are listed when an entry is set. -/
theorem keys_setEntry (place : Place) (entry : Entry) (entries : List (Place × Entry)) :
    (setEntry place entry entries).map Prod.fst =
      if place ∈ entries.map Prod.fst then entries.map Prod.fst
      else entries.map Prod.fst ++ [place] := by
  induction entries with
  | nil => simp [setEntry]
  | cons head rest ih =>
    obtain ⟨p, e⟩ := head
    by_cases hp : p = place
    · subst hp
      simp [setEntry]
    · rw [setEntry, if_neg hp, List.map_cons, ih]
      have hne : place ≠ p := fun h => hp h.symm
      have hmem : place ∈ ((p, e) :: rest).map Prod.fst ↔ place ∈ rest.map Prod.fst := by
        simp [hne]
      simp only [hmem]
      split <;> rfl

/-- Places that are listed once are so when an entry is set. -/
theorem nodup_setEntry {entries : List (Place × Entry)} (h : (entries.map Prod.fst).Nodup)
    (place : Place) (entry : Entry) : ((setEntry place entry entries).map Prod.fst).Nodup := by
  rw [keys_setEntry]
  split
  next => exact h
  next hmem =>
    rw [← List.concat_eq_append]
    exact h.concat hmem

/-- The places that are listed when an entry is set are those before and the place. -/
theorem mem_keys_setEntry {p place : Place} {entry : Entry} {entries : List (Place × Entry)}
    (h : p ∈ (setEntry place entry entries).map Prod.fst) :
    p = place ∨ p ∈ entries.map Prod.fst := by
  rw [keys_setEntry] at h
  split at h
  next => exact .inr h
  next =>
    rcases List.mem_append.1 h with hold | hnew
    · exact .inr hold
    · exact .inl (List.mem_singleton.1 hnew)

/-- In a list that has every place once, what is listed is what is found. -/
theorem find?_eq_some {entries : List (Place × Entry)} (h : (entries.map Prod.fst).Nodup)
    {place : Place} {entry : Entry} :
    find? place entries = some entry ↔ (place, entry) ∈ entries := by
  refine ⟨mem_of_find?, fun hmem => ?_⟩
  induction entries with
  | nil => cases hmem
  | cons head rest ih =>
    obtain ⟨p, e⟩ := head
    rw [List.map_cons, List.nodup_cons] at h
    rw [find?]
    rcases List.mem_cons.1 hmem with hhead | hrest
    · cases hhead
      exact if_pos rfl
    · have hlisted : place ∈ rest.map Prod.fst := List.mem_map_of_mem hrest
      have hne : p ≠ place := fun heq => h.1 (heq ▸ hlisted)
      rw [if_neg hne]
      exact ih h.2 hrest

namespace Orderly

variable {disk : Disk}

/-- Places share the same file with each other. -/
theorem sharers_of_mem (h : disk.Orderly) {p q : Place} (hq : q ∈ disk.sharers p) :
    disk.sharers q = disk.sharers p := by
  rcases sharers_eq disk p with halone | hgroup
  · rw [halone, List.mem_singleton] at hq
    rw [hq]
  · exact h.parted _ hgroup q hq

/-- A disk stays in order when entries go, and shared places with them. -/
theorem keep (h : disk.Orderly) (stays : Place → Bool) : (disk.keep stays).Orderly := by
  have hkeys : ((disk.keep stays).entries.map Prod.fst).Sublist (disk.entries.map Prod.fst) :=
    List.filter_sublist.map _
  refine ⟨h.once.sublist hkeys, fun hroot => h.root (hkeys.subset hroot), ?_⟩
  intro group hgroup p hp
  obtain ⟨before, hbefore, rfl⟩ := List.mem_map.1 hgroup
  obtain ⟨hp, hstays⟩ := List.mem_filter.1 hp
  rw [sharers_filter disk stays rfl, if_pos hstays, h.parted before hbefore p hp]

/-- A disk stays in order when an entry is put at a place. -/
theorem put (h : disk.Orderly) {place : Place} (hplace : place ≠ []) (entry : Entry) :
    (disk.put place entry).Orderly := by
  refine ⟨nodup_setEntry h.once _ _, fun hroot => ?_, (h.keep (· != place)).parted⟩
  rcases mem_keys_setEntry hroot with hnil | hold
  · exact hplace hnil.symm
  · exact h.root hold

/-- A disk stays in order when a file is rewritten. -/
theorem rewrite (h : disk.Orderly) {place : Place} (hroot : [] ∉ disk.sharers place)
    (entry : Entry) : (disk.rewrite place entry).Orderly := by
  have hset : ∀ (places : List Place) (entries : List (Place × Entry)), [] ∉ places →
      (entries.map Prod.fst).Nodup → [] ∉ entries.map Prod.fst →
      ((places.foldl (fun entries p => setEntry p entry entries) entries).map Prod.fst).Nodup ∧
        [] ∉ (places.foldl (fun entries p => setEntry p entry entries) entries).map
          Prod.fst := by
    intro places
    induction places with
    | nil => exact fun entries _ hnodup hnil => ⟨hnodup, hnil⟩
    | cons p places ih =>
      intro entries hplaces hnodup hnil
      rw [List.mem_cons, not_or] at hplaces
      refine ih _ hplaces.2 (nodup_setEntry hnodup _ _) fun hmem => ?_
      rcases mem_keys_setEntry hmem with hp | hold
      · exact hplaces.1 hp
      · exact hnil hold
  obtain ⟨hnodup, hnil⟩ := hset _ _ hroot h.once h.root
  exact ⟨hnodup, hnil, h.parted⟩

end Orderly

/-! ## A second name -/

/-- A second name shares with all that the first one shares with, and other places share as
before. -/
theorem Orderly.sharers_share {disk : Disk} (h : disk.Orderly) (origin second p : Place)
    (entry : Entry) : (disk.share origin second entry).sharers p =
      if p ∈ disk.sharers origin ∨ p = second then disk.sharers origin ++ [second]
      else disk.sharers p := by
  have hshare : (disk.share origin second entry).sharers p =
      (((disk.sharers origin ++ [second]) ::
        disk.shared.filter (!·.contains origin)).find? (·.contains p)).getD [p] := rfl
  rw [hshare, List.find?_cons]
  by_cases hin : p ∈ disk.sharers origin ∨ p = second
  · have hcontains : (disk.sharers origin ++ [second]).contains p = true := by
      simpa using hin
    rw [if_pos hin, hcontains]
    rfl
  have hcontains : (disk.sharers origin ++ [second]).contains p = false := by
    simpa using hin
  rw [if_neg hin, hcontains, List.find?_filter]
  -- A group that holds the place does not hold the first name, which would share with it then.
  have hagree : ∀ group ∈ disk.shared,
      decide ((!group.contains origin) = true ∧ group.contains p = true) = group.contains p := by
    intro group hgroup
    rcases hp : group.contains p with _ | _
    · simp
    have hsharers : disk.sharers p = group := h.parted group hgroup p (by simpa using hp)
    have hnot : origin ∉ group := by
      intro hmem
      refine hin (.inl ?_)
      rw [← hsharers] at hmem
      rw [h.sharers_of_mem hmem]
      exact mem_sharers_self disk p
    simp [hnot]
  rw [List.find?_congr hagree]
  rfl

/-- All places that share a file are files. -/
theorem WellFormed.file_of_sharers {disk : Disk} (h : disk.WellFormed) {place q : Place}
    {mode : Mode} {content : Content}
    (hfile : disk.get? place = some (.file mode content)) (hq : q ∈ disk.sharers place) :
    ∃ x c, disk.get? q = some (.file x c) := by
  by_cases hne : q = place
  · exact ⟨_, _, hne ▸ hfile⟩
  · exact h.file_of_mem_sharers hq hne

/-- A disk stays sound when a file gets a second name at a free place in a directory. -/
theorem Sound.share {disk : Disk} (h : disk.Sound) {origin : Place} {mode : Mode}
    {content : Content} (horigin : disk.get? origin = some (.file mode content))
    {parent : Place} {name : Text} (hparent : disk.get? parent = some .directory)
    (hfree : disk.get? (parent ++ [name]) = none) :
    (disk.share origin (parent ++ [name]) (.file mode content)).Sound := by
  generalize hsecond : parent ++ [name] = second at *
  have hsecond' : second ≠ [] := by simp [← hsecond]
  have hself : (disk.share origin second (.file mode content)).get? second =
      some (.file mode content) := by
    rw [get?_of_ne_root hsecond', Disk.share, find?_setEntry, if_pos rfl]
  have horigins : ∀ q ∈ disk.sharers origin, ∃ x c, disk.get? q = some (.file x c) :=
    fun q hq => h.file_of_sharers horigin hq
  have hext : ∀ q entry, disk.get? q = some entry →
      (disk.share origin second (.file mode content)).get? q = some entry := by
    intro q entry hq
    rw [get?_share_of_ne, hq]
    rintro rfl
    rw [hfree] at hq
    cases hq
  refine ⟨⟨fun p last entry hp => ?_, fun group hgroup p hp => ?_⟩,
    ⟨nodup_setEntry h.once _ _, fun hroot => ?_, fun group hgroup p hp => ?_⟩⟩
  · by_cases heq : p ++ [last] = second
    · rw [← hsecond] at heq
      obtain ⟨rfl, -⟩ := List.append_inj' heq rfl
      exact hext _ _ hparent
    · rw [get?_share_of_ne heq] at hp
      exact hext _ _ (h.parent _ _ _ hp)
  · rcases List.mem_cons.1 hgroup with rfl | hold
    · rcases List.mem_append.1 hp with hp | hp
      · obtain ⟨x, c, hfile⟩ := horigins p hp
        exact ⟨x, c, hext _ _ hfile⟩
      · rw [List.mem_singleton] at hp
        rw [hp]
        exact ⟨_, _, hself⟩
    · obtain ⟨x, c, hfile⟩ := h.shared group (List.mem_filter.1 hold).1 p hp
      exact ⟨x, c, hext _ _ hfile⟩
  · rcases mem_keys_setEntry hroot with hnil | hold
    · exact hsecond' hnil.symm
    · exact h.root hold
  · rw [h.sharers_share]
    rcases List.mem_cons.1 hgroup with rfl | hold
    · rw [if_pos (by simpa using hp)]
    · obtain ⟨hgroup, hnot⟩ : group ∈ disk.shared ∧ (!group.contains origin) = true :=
        List.mem_filter.1 hold
      have hsharers := h.parted group hgroup p hp
      rw [if_neg, hsharers]
      rintro (hmem | hsecond)
      · have horigin : origin ∈ group := by
          rw [← hsharers, h.sharers_of_mem hmem]
          exact mem_sharers_self disk origin
        simp [horigin] at hnot
      · obtain ⟨x, c, hfile⟩ := h.shared group hgroup p hp
        rw [hsecond, hfree] at hfile
        cases hfile

namespace Sound

variable {disk : Disk}

/-- A disk stays sound when an entry comes to a free place in a directory. -/
theorem put (h : disk.Sound) {parent : Place} {name : Text}
    (hparent : disk.get? parent = some .directory) (hfree : disk.get? (parent ++ [name]) = none)
    (entry : Entry) : (disk.put (parent ++ [name]) entry).Sound :=
  ⟨h.toWellFormed.put hparent hfree entry, h.toOrderly.put (by simp) entry⟩

/-- The root is no file, and so no file shares with it. -/
theorem root_not_mem_sharers (h : disk.Sound) {place : Place} {mode : Mode}
    {content : Content} (hfile : disk.get? place = some (.file mode content)) :
    [] ∉ disk.sharers place := by
  intro hmem
  obtain ⟨x, c, hx⟩ := h.file_of_sharers hfile hmem
  rw [get?_root] at hx
  cases hx

/-- A disk stays sound when a file is rewritten. -/
theorem rewrite (h : disk.Sound) {place : Place} {mode : Mode} {content : Content}
    (hfile : disk.get? place = some (.file mode content)) (mode' : Mode)
    (content' : Content) : (disk.rewrite place (.file mode' content')).Sound :=
  ⟨h.toWellFormed.rewrite hfile _ _, h.toOrderly.rewrite (h.root_not_mem_sharers hfile) _⟩

/-- A disk stays sound when something other than a directory goes. -/
theorem erase (h : disk.Sound) {place : Place} (hplace : disk.get? place ≠ some .directory) :
    (disk.erase place).Sound :=
  ⟨h.toWellFormed.erase hplace, h.toOrderly.keep _⟩

/-- A disk stays sound when a directory goes with all that is below it. -/
theorem eraseTree (h : disk.Sound) (place : Place) : (disk.eraseTree place).Sound := by
  refine ⟨⟨fun p name entry hp => ?_, fun group hgroup p hp => ?_⟩, h.toOrderly.keep _⟩
  · unfold Disk.eraseTree at hp ⊢
    rw [get?_keep (by simp)] at hp
    split at hp
    next hstays =>
      have hdirectory := h.parent _ _ _ hp
      by_cases hp' : p = []
      · rw [hp', get?_root]
      rw [get?_keep hp', if_pos, hdirectory]
      rw [Bool.not_eq_true', Bool.eq_false_iff] at hstays ⊢
      intro hprefix
      have hprefix := (List.isPrefixOf_iff_prefix.1 hprefix).trans (List.prefix_append p [name])
      exact hstays (List.isPrefixOf_iff_prefix.2 hprefix)
    next => cases hp
  · obtain ⟨before, hbefore, rfl⟩ := List.mem_map.1 hgroup
    obtain ⟨hp, hstays⟩ := List.mem_filter.1 hp
    obtain ⟨x, c, hfile⟩ := h.shared before hbefore p hp
    refine ⟨x, c, ?_⟩
    have hne : p ≠ [] := by
      rintro rfl
      rw [get?_root] at hfile
      cases hfile
    rw [Disk.eraseTree, get?_keep hne, if_pos hstays, hfile]

end Sound

/-- Whether a disk is well-formed and in order. -/
def isSound (disk : Disk) : Bool :=
  disk.isWellFormed && decide (disk.entries.map Prod.fst).Nodup &&
    !(disk.entries.map Prod.fst).contains [] &&
    disk.shared.all fun group => group.all fun p => disk.sharers p == group

/-- A disk can be checked to be sound. -/
theorem sound_of_check {disk : Disk} (h : disk.isSound = true) : disk.Sound := by
  simp only [isSound, Bool.and_eq_true, decide_eq_true_eq, List.all_eq_true] at h
  obtain ⟨⟨⟨hwf, honce⟩, hroot⟩, hparted⟩ := h
  exact ⟨wellFormed_of_check hwf, honce, by simpa using hroot,
    fun group hgroup p hp => by simpa using hparted group hgroup p hp⟩

/-! ## Disks that look alike -/

/-- The two disks show the same entries and share the same files. -/
structure Alike (disk other : Disk) : Prop where
  view : ∀ p, other.get? p = disk.get? p
  sharers : ∀ p q, q ∈ other.sharers p ↔ q ∈ disk.sharers p

namespace Alike

variable {disk other : Disk}

/-- A disk looks like itself. -/
theorem refl (disk : Disk) : Alike disk disk := ⟨fun _ => rfl, fun _ _ => .rfl⟩

/-- Disks stay alike when entries go at the same places. -/
theorem keep (h : Alike disk other) (stays : Place → Bool) :
    Alike (disk.keep stays) (other.keep stays) := by
  refine ⟨fun p => ?_, fun p q => ?_⟩
  · by_cases hp : p = []
    · rw [hp, get?_root, get?_root]
    · rw [get?_keep hp, get?_keep hp, h.view]
  · rw [sharers_keep, sharers_keep]
    split
    · simp only [List.mem_filter, h.sharers]
    · rfl

/-- Disks stay alike when the same entry is put at a place. -/
theorem put (h : Alike disk other) {place : Place} (hplace : place ≠ []) (entry : Entry) :
    Alike (disk.put place entry) (other.put place entry) := by
  refine ⟨fun p => ?_, (h.keep (· != place)).sharers⟩
  by_cases hp : p = place
  · rw [hp, get?_put_self hplace, get?_put_self hplace]
  · rw [get?_put_of_ne hp, get?_put_of_ne hp, h.view]

/-- Disks stay alike when the file at a place is rewritten in the same way. -/
theorem rewrite (h : Alike disk other) (place : Place) (entry : Entry) :
    Alike (disk.rewrite place entry) (other.rewrite place entry) := by
  refine ⟨fun p => ?_, h.sharers⟩
  by_cases hp : p = []
  · rw [hp, get?_root, get?_root]
  · simp only [get?_rewrite hp, h.sharers, h.view]

/-- Disks stay alike when a file gets the same second name. -/
theorem share (h : Alike disk other) (hdisk : disk.Orderly) (hother : other.Orderly)
    (origin : Place) {second : Place} (hsecond : second ≠ []) (entry : Entry) :
    Alike (disk.share origin second entry) (other.share origin second entry) := by
  refine ⟨fun p => ?_, fun p q => ?_⟩
  · by_cases hp : p = second
    · rw [hp, get?_of_ne_root hsecond, get?_of_ne_root hsecond, Disk.share, Disk.share,
        find?_setEntry, find?_setEntry, if_pos rfl, if_pos rfl]
    · rw [get?_share_of_ne hp, get?_share_of_ne hp, h.view]
  · rw [hdisk.sharers_share, hother.sharers_share]
    simp only [h.sharers]
    split
    · simp only [List.mem_append, h.sharers]
    · exact h.sharers p q

/-- Disks that look alike and are in order have equally many entries. -/
theorem length_eq (h : Alike disk other) (hdisk : disk.Orderly) (hother : other.Orderly) :
    other.entries.length = disk.entries.length := by
  have hperm : other.entries.Perm disk.entries := by
    refine (List.perm_ext_iff_of_nodup (hother.once.of_map _) (hdisk.once.of_map _)).2 ?_
    rintro ⟨p, entry⟩
    by_cases hp : p = []
    · subst hp
      constructor
      · exact fun hmem => absurd (List.mem_map_of_mem (f := Prod.fst) hmem) hother.root
      · exact fun hmem => absurd (List.mem_map_of_mem (f := Prod.fst) hmem) hdisk.root
    · rw [← find?_eq_some hother.once, ← find?_eq_some hdisk.once, ← get?_of_ne_root hp,
        ← get?_of_ne_root hp, h.view]
  exact hperm.length_eq

end Alike

/-! ## What depends on the view alone -/

section View

variable {disk other : Disk} (h : ∀ p, other.get? p = disk.get? p)
include h

/-- A walk depends on what is seen. -/
theorem walk_congr (through : Bool) (links : Nat) :
    walk other through links = walk disk through links := by
  have hfollow : ∀ expand expand' : Place → List Text → Except Reason Place, expand' = expand →
      followNames other through expand' = followNames disk through expand := by
    rintro expand _ rfl
    funext here names
    induction names generalizing here with
    | nil => rw [followNames_nil, followNames_nil]
    | cons name rest ih =>
      rw [followNames.eq_def, followNames.eq_def]
      simp only [h, ih]
  induction links with
  | zero => exact hfollow _ _ rfl
  | succ links ih => exact hfollow _ _ ih

/-- Where a path leads depends on what is seen. -/
theorem locate_congr (through : Bool) (path : Path) :
    other.locate through path = disk.locate through path := by
  unfold locate
  rw [walk_congr h]

/-- What a path leads to depends on what is seen. -/
theorem find_congr (through : Bool) (path : Path) :
    other.find through path = disk.find through path := by
  unfold find
  simp only [locate_congr h, h]

/-- Whether a path ends at a link whose target ends with a slash depends on what is seen. -/
theorem leadsToSlash_congr (links : Nat) (path : Path) :
    other.leadsToSlash links path = disk.leadsToSlash links path := by
  induction links generalizing path with
  | zero => rfl
  | succ links ih =>
    rw [leadsToSlash.eq_def, leadsToSlash.eq_def]
    simp only [find_congr h, locate_congr h, ih]

/-- Resolving names depends on what is seen, and on the depth to which links nest. -/
theorem traceWith_congr (depth : Nat) (pending : List Path) :
    traceWith other depth pending = traceWith disk depth pending := by
  have hnames : ∀ (pending : List Path)
      (expand expand' : List Path → Path → List Text → List Text → Trace), expand' = expand →
      traceNames other pending expand' = traceNames disk pending expand := by
    rintro pending expand _ rfl
    funext known here names
    induction names generalizing known here with
    | nil => rw [traceNames, traceNames]
    | cons name rest ih =>
      rw [traceNames.eq_def, traceNames.eq_def]
      simp only [find_congr h, ih]
  induction depth generalizing pending with
  | zero => exact hnames _ _ _ rfl
  | succ depth ih => exact hnames _ _ _ (by simp only [ih])

variable [Interpreter]

/-- Real paths are the same on disks with the same view and equally many entries. -/
theorem realPath_congr (hlength : other.entries.length = disk.entries.length) (path : Path) :
    other.realPath path = disk.realPath path := by
  unfold realPath trace
  rw [traceWith_congr h, hlength]

end View

end ProviderKit.Disk
