import Mathlib.Data.List.Induction
import ProviderKit.Proofs.Disk.Confinement

/-!
# What a real path tells of a walk

A real path is resolved as far as a walk arrives, and then goes on by name only: nothing is below a
free place or a file. So the place where a walk comes to a file, or to where nothing is, can be read
off the real path of longer names (`resolveWith_front`, `resolveWith_behind`).
-/

namespace ProviderKit.Disk

/-- The paths to the links of a disk are short enough to be given to it. -/
def ShortLinks (disk : Disk) : Prop :=
  ∀ p target, disk.get? p = some (.link target) →
    Utf8.losslessSize (⟨.single, p⟩ : Path).text < pathLimit

/-- Whether the paths to a disk's links are short. -/
def hasShortLinks (disk : Disk) : Bool :=
  disk.allBelow [] fun p entry => match entry with
    | .link _ => decide (Utf8.losslessSize (⟨.single, p⟩ : Path).text < pathLimit)
    | _ => true

/-- The paths to a disk's links can be checked to be short. -/
theorem shortLinks_of_check {disk : Disk} (h : disk.hasShortLinks = true) : ShortLinks disk :=
  fun _ _ hget => of_decide_eq_true (of_allBelow h hget)

/-- With short paths to its links a disk is ordinary. -/
theorem Regular.ordinary {disk : Disk} (h : disk.Regular) (hshort : ShortLinks disk) :
    disk.Ordinary :=
  ⟨h.names, fun p target hp => (h.targets p target hp).usable, hshort⟩

/-! ## Names in two parts -/

/-- Names in front that are resolved are followed by the names behind. -/
theorem resolveNames_append {disk : Disk} {pending : List Path}
    {expand : Path → List Text → List Text → Except Fault Resolved} {here names real : List Text}
    (h : resolveNames disk pending expand here names = .ok (real, true)) (rest : List Text) :
    resolveNames disk pending expand here (names ++ rest) =
      resolveNames disk pending expand real rest := by
  induction names generalizing here with
  | nil =>
    rw [resolveNames] at h
    rw [List.nil_append, (Prod.mk.inj (Except.ok.inj h)).1]
  | cons name names ih =>
    rw [List.cons_append]
    rw [resolveNames] at h ⊢
    split at h
    next hidle =>
      rw [if_pos hidle]
      exact ih h
    next hidle =>
      rw [if_neg hidle]
      split at h
      next hup =>
        rw [if_pos hup]
        exact ih h
      next hup =>
        rw [if_neg hup]
        dsimp only at h ⊢
        split at h
        next fault hfault =>
          split at h
          · cases h
          next hpath =>
            rw [if_neg hpath]
            exact ih h
        next place target hlink =>
          split at h
          · cases h
          next hnew =>
            rw [if_neg hnew]
            split at h
            · cases h
            · exact ih h
            · cases h
        next => exact ih h

/-- A name that is looked up without a fault of its text is usable. -/
theorem usable_of_resolveNames {disk : Disk} {pending : List Path}
    {expand : Path → List Text → List Text → Except Fault Resolved} {here rest : List Text}
    {name : Text} (hdown : LeadsDown name) {outcome : Resolved}
    (h : resolveNames disk pending expand here (name :: rest) = .ok outcome) : Usable name := by
  by_contra hnot
  have htext : ¬ Usable (⟨.single, here ++ [name]⟩ : Path).text := by
    intro htext
    have hjoin : name ⊆ Text.join "/" (here ++ [name]) := Text.subset_join (by simp)
    refine hnot (htext.subset ?_)
    rw [text_single]
    exact List.Subset.trans hjoin (List.subset_append_right _ _)
  have hfind : ∃ fault, disk.find false ⟨.single, here ++ [name]⟩ = .error fault ∧
      fault.isPathText = true := by
    by_cases hencodable : isEncodable (⟨.single, here ++ [name]⟩ : Path).text = true
    · have hnull : hasNull (⟨.single, here ++ [name]⟩ : Path).text = true := by
        rw [← Bool.not_eq_false]
        exact fun hnone => htext ⟨hencodable, hnone⟩
      exact ⟨.nullCharacter, find_of_locate_error (by simp [locate, hencodable, hnull]), rfl⟩
    · exact ⟨.unencodable, find_of_locate_error (by simp [locate, hencodable]), rfl⟩
  obtain ⟨fault, hfault, hpath⟩ := hfind
  have hidle := hdown.counts
  rw [saysNothing] at hidle
  rw [resolveNames, if_neg (by simp [hidle]), if_neg hdown.notUp] at h
  dsimp only at h
  rw [hfault] at h
  dsimp only at h
  rw [if_pos hpath] at h
  cases h

/-- Names in front that say nothing are passed by. -/
theorem resolveNames_idles {disk : Disk} {pending : List Path}
    {expand : Path → List Text → List Text → Except Fault Resolved} {here names : List Text}
    (h : ∀ name ∈ names, saysNothing name = true) (rest : List Text) :
    resolveNames disk pending expand here (names ++ rest) =
      resolveNames disk pending expand here rest := by
  induction names with
  | nil => rfl
  | cons name names ih =>
    rw [List.cons_append, resolveNames_idle (h name List.mem_cons_self)]
    exact ih fun n hn => h n (List.mem_cons_of_mem _ hn)

/-- The real path of a directory is resolved to itself, whatever comes behind it. -/
theorem resolveWith_directory {disk : Disk} (hwf : disk.WellFormed) (hdisk : disk.Ordinary)
    {place : Place} {real : List Text} (hdirectory : disk.get? place = some .directory)
    (hreal : Denotes real place) (depth : Nat) (names : List Text) :
    resolveWith disk depth [] [] (real ++ names) = resolveWith disk depth [] real names := by
  rw [resolveWith_eq, resolveWith_eq]
  refine resolveNames_straight (by simpa using hreal.usable) (fun name hname => ?_)
    (fun q hq target hlink => ?_) names
  · have hmem : Utf8.canonical name ∈ place := hreal.read ▸ List.mem_map_of_mem hname
    exact hdisk.names _ _ hdirectory _ hmem
  · rw [List.nil_append, hreal.read] at hq
    rw [hwf.directory_above hdirectory hq] at hlink
    cases hlink

/-! ## Where nothing is below -/

section Loose

variable {disk : Disk} (hwf : disk.WellFormed) {parent : Place} {last : Text}
  (hparent : disk.get? parent = some .directory)
  (hloose : ∀ entry, disk.get? (parent ++ [last]) = some entry → entry.isFile = true)
include hwf hparent hloose

/-- Names at and below a free place or a file are kept. -/
theorem kept_of_loose {p : Place} (hbelow : parent ++ [last] <+: p)
    (hplain : ∀ name ∈ p, IsPlain name) {names : List Text} (hdenotes : Denotes names p) :
    Kept disk names := by
  have hnot : disk.get? (parent ++ [last]) ≠ some .directory := by
    intro hq
    cases hloose _ hq
  -- No link is above the place, at it, or below it.
  have hnolink : ∀ r, r <+: p → ∀ target, disk.get? r ≠ some (.link target) := by
    intro r hr target hlink
    rcases List.prefix_or_prefix_of_prefix hr hbelow with habove | ⟨rest, rfl⟩
    · rcases List.prefix_concat_iff.1 habove with rfl | ⟨rest, rfl⟩
      · cases hloose _ hlink
      · rw [hwf.directory_above hparent (List.prefix_append r rest)] at hlink
        cases hlink
    · by_cases hnil : rest = []
      · rw [hnil, List.append_nil] at hlink
        cases hloose _ hlink
      · rw [hwf.below hnot hnil] at hlink
        cases hlink
  have hread : ∀ name ∈ names, IsPlain (Utf8.canonical name) := fun name hname =>
    hplain _ (hdenotes.read ▸ List.mem_map_of_mem hname)
  rcases find_straight disk hdenotes.usable hread
    (fun r hr _ => hnolink r (hdenotes.read ▸ hr)) with hfault | ⟨entry, hfound⟩
  · exact .inl hfault
  · refine .inr ⟨_, entry, hfound, ?_⟩
    have hentry := (find_eq_ok.1 hfound).2
    rw [hdenotes.read] at hentry
    cases entry with
    | link target => exact absurd hentry (hnolink p (List.prefix_refl _) target)
    | directory => rfl
    | file => rfl

/-- A walk may end at a free place or a file. -/
theorem isEnd_of_loose (hplain : ∀ name ∈ parent ++ [last], IsPlain name)
    (hlast : last ≠ [] ∧ Utf8.canonical last = last) : IsEnd disk (parent ++ [last]) := by
  refine ⟨fun names hdenotes => kept_of_loose hwf hparent hloose (List.prefix_refl _) hplain
    hdenotes, fun dir name heq => ?_⟩
  obtain ⟨-, hsame⟩ := List.append_inj' heq rfl
  rw [← List.singleton_inj.1 hsame]
  exact hlast

/-- Behind a free place or a file all names are kept that say something, if they do not go up. -/
theorem resolveWith_behind {p : Place} (hbelow : parent ++ [last] <+: p)
    (hplain : ∀ name ∈ p, IsPlain name) {names here : List Text} (hdenotes : Denotes here p)
    (hup : ∀ name ∈ names, Utf8.canonical name ≠ Text.ofString "..") {depth : Nat}
    {outcome : Resolved} (h : resolveWith disk depth [] here names = .ok outcome) :
    outcome = (here ++ names.filter (fun name => !saysNothing name), true) := by
  induction names generalizing here p with
  | nil =>
    rw [resolveWith_eq, resolveNames] at h
    rw [List.filter_nil, List.append_nil, Except.ok.inj h]
  | cons name names ih =>
    have hup' : ∀ n ∈ names, Utf8.canonical n ≠ Text.ofString ".." := fun n hn =>
      hup n (List.mem_cons_of_mem _ hn)
    by_cases hidle : saysNothing name = true
    · rw [resolveWith_eq, resolveNames_idle hidle, ← resolveWith_eq] at h
      rw [List.filter_cons_of_neg (by simp [hidle])]
      exact ih hbelow hplain hdenotes hup' h
    have hnotUp : name ≠ Text.ofString ".." := by
      rintro rfl
      exact hup _ List.mem_cons_self (Utf8.canonical_ofString "..")
    have hdown : LeadsDown name := ⟨by simpa using hidle, hnotUp⟩
    rw [resolveWith_eq] at h
    have husable := usable_of_resolveNames hdown h
    have hread : IsPlain (Utf8.canonical name) := by
      refine ⟨fun hdot => ?_, hup name List.mem_cons_self⟩
      exact hdown.plain.1 (eq_of_canonical_eq husable (by decide +kernel) hdot)
    have hdenotes' := hdenotes.concat husable rfl
    have hbelow' : parent ++ [last] <+: p ++ [Utf8.canonical name] :=
      hbelow.trans (List.prefix_append _ _)
    have hplain' : ∀ n ∈ p ++ [Utf8.canonical name], IsPlain n := by
      intro n hn
      rcases List.mem_append.1 hn with hold | hnew
      · exact hplain n hold
      · exact List.mem_singleton.1 hnew ▸ hread
    have hkept := kept_of_loose hwf hparent hloose hbelow' hplain' hdenotes'
    rw [resolveNames_kept hdown hkept, ← resolveWith_eq] at h
    rw [ih hbelow' hplain' hdenotes' hup' h, List.filter_cons_of_pos (by simp [hidle])]
    simp

end Loose

/-! ## As far as a walk arrives -/

/-- The names between slashes that a walk follows, as they are read. -/
def followedNames (raw : List Text) : List Text :=
  (raw.filter fun name => !name.isEmpty).map Utf8.canonical

/-- A walk follows the written names but for the blank ones. -/
theorem Spells.written (raw : List Text) : Spells raw (followedNames raw) := by
  induction raw with
  | nil => exact .nil
  | cons name raw ih =>
    unfold followedNames at ih ⊢
    rw [List.filter_cons]
    split
    · exact .name (.inr rfl) ih
    next hblank =>
      refine .idle ?_ ih
      have hempty : name.isEmpty = true := by simpa using hblank
      rw [saysNothing, hempty, Bool.true_or]

/-- Where a walk arrives along the first of some names the others are resolved from there. -/
theorem resolveWith_front {disk other : Disk} (hguides : Guides disk other) {links : Nat}
    {place q : Place} {real : List Text} (hreal : Denotes real place) {raw rest : List Text}
    (hwalk : walk disk true links place (followedNames raw) = .ok q) (hend : IsEnd other q)
    {outcome : Resolved}
    (h : resolveWith other (other.entries.length + 1) [] real (raw ++ rest) = .ok outcome) :
    ∃ names, Denotes names q ∧
      resolveWith other (other.entries.length + 1) [] names rest = .ok outcome := by
  have hunderway := Underway.start disk links other.entries.length
  -- What is resolved in front of a name is usable, and so is the name, since it is looked up there.
  have husable : ∀ name ∈ raw, Usable name := by
    induction raw using List.reverseRecOn generalizing rest q with
    | nil => simp
    | append_singleton init last ih =>
      rw [List.append_assoc, List.singleton_append] at h
      have hlast : ∀ hinit : ∀ name ∈ init, Usable name, Usable last →
          ∀ name ∈ init ++ [last], Usable name := by
        intro hinit hlast name hname
        rcases List.mem_append.1 hname with hold | hnew
        · exact hinit name hold
        · exact List.mem_singleton.1 hnew ▸ hlast
      by_cases hblank : last = []
      · subst hblank
        have hsame : followedNames (init ++ [[]]) = followedNames init := by
          simp [followedNames]
        rw [hsame] at hwalk
        exact hlast (ih hwalk hend h) (by decide)
      have hmore : followedNames (init ++ [last]) =
          followedNames init ++ [Utf8.canonical last] := by
        simp [followedNames, hblank]
      rw [hmore] at hwalk
      obtain ⟨r, hto, hfrom⟩ := walk_parts hwalk
      have hend' := hguides.isEnd_of_walk hend hfrom
      have hinit := ih hto hend' h
      refine hlast hinit ?_
      obtain ⟨names, hnames, -⟩ := arrives_of_walk hguides hunderway (.written init) hreal hinit
        hto hend'
      rw [resolveWith_eq] at h hnames
      rw [resolveNames_append hnames] at h
      by_cases hidle : saysNothing last = true
      · obtain rfl : last = Text.ofString "." := by simpa [saysNothing, hblank] using hidle
        decide
      by_cases hup : last = Text.ofString ".."
      · subst hup
        decide
      · exact usable_of_resolveNames ⟨by simpa using hidle, hup⟩ h
  obtain ⟨names, hnames, hdenotes, -⟩ := arrives_of_walk hguides hunderway (.written raw) hreal
    husable hwalk hend
  refine ⟨names, hdenotes, ?_⟩
  rw [resolveWith_eq] at h hnames ⊢
  rw [← h, resolveNames_append hnames]

/-- Where the links are the same, a disk guides another one. -/
theorem Guides.of_links {disk other : Disk} (hdisk : disk.Regular) (hwf : other.WellFormed)
    (hother : other.Ordinary)
    (hlinks : ∀ p target, disk.get? p = some (.link target) ↔ other.get? p = some (.link target)) :
    Guides disk other := by
  refine ⟨hdisk.names, fun p target hp => (hdisk.targets p target hp).usable,
    fun names place target hdenotes hlink => ?_, fun names place hdenotes hdirectory => ?_⟩
  · exact hdenotes.find_link hwf hother (fun p entry hp => ⟨entry, hp, rfl⟩) ((hlinks _ _).1 hlink)
  -- All that is above a directory is one, so no link is there.
  have hnolink : ∀ q, q <+: place → ∀ target, other.get? q ≠ some (.link target) := by
    intro q hq target hlink
    have hlink' := (hlinks _ _).2 hlink
    rw [hdisk.directory_above hdirectory hq] at hlink'
    cases hlink'
  have hplain : ∀ name ∈ names, IsPlain (Utf8.canonical name) := fun name hname =>
    (hdisk.names _ _ hdirectory _ (hdenotes.read ▸ List.mem_map_of_mem hname)).plain
  rcases find_straight other hdenotes.usable hplain
    (fun q hq _ => hnolink q (hdenotes.read ▸ hq)) with hfault | ⟨entry, hfound⟩
  · exact .inl hfault
  · refine .inr ⟨_, entry, hfound, ?_⟩
    have hentry := (find_eq_ok.1 hfound).2
    rw [hdenotes.read] at hentry
    cases entry with
    | link target => exact absurd hentry (hnolink place (List.prefix_refl _) target)
    | directory => rfl
    | file => rfl

end ProviderKit.Disk
