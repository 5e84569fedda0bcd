import Mathlib.Data.List.Infix
import ProviderKit.Proofs.Archive.Confined
import ProviderKit.Proofs.Disk.RealWalk

/-!
# Members that may be unpacked

The check of a member looks at real paths, and unpacking follows links. Where the name of a member
does not go up, and no link outside the directory leads into it, what the check finds is enough: the
name stays inside the directory (`stays_of_accept`), and so does the file that a second name is
given to (`source_of_accept`). So a member that may be unpacked is unpacked inside.
-/

namespace ProviderKit.Archive

open Disk (IsName IsPlain Usable Denotes LeadsDown Within Stays readNames linkLimit writtenNames
  followedNames saysNothing)
open Unpack

/-! ## What the check has found -/

variable {disk : Disk} {directory : Path} {place : Place} {real : List Text}
  {member accepted : Member}

/-- A target that is let through is relative and has a real path in the directory. -/
theorem checkTarget_ok [Interpreter] {real : Path} {base : List Text} {target : Text}
    (h : checkTarget disk real base target = .ok ()) :
    (Path.ofText target).isAbsolute = false ∧
      liesIn disk real (base ++ writtenNames target) = .ok true := by
  unfold checkTarget at h
  dsimp only [bind, Except.bind, pure, Except.pure] at h
  by_cases habsolute : (Path.ofText target).isAbsolute = true
  · rw [if_pos habsolute] at h
    cases h
  rw [if_neg habsolute] at h
  rcases htarget : liesIn disk real (base ++ writtenNames target) with fault | there
  · rw [htarget] at h
    cases h
  rw [htarget] at h
  cases there with
  | false => cases h
  | true => exact ⟨by simpa using habsolute, rfl⟩

/-- Whether a member is a directory. -/
def isFolder : Member → Bool
  | .directory _ => true
  | _ => false

/-- A member is unpacked as what it is, under its name without slashes in front. -/
structure Renamed (member accepted : Member) : Prop where
  name : accepted.name = storedName member
  folder : isFolder accepted = isFolder member
  target : ∀ name target, accepted = .sameFile name target →
    ∃ name', member = .sameFile name' target

/-- A member that may be unpacked has a real path in the directory, and so has what it is a second
name of. -/
theorem accept_ok [Interpreter] (h : accept disk directory member = .ok accepted) :
    ∃ real, disk.realPath directory = .ok real ∧ Renamed member accepted ∧
      liesIn disk real (writtenNames (storedName member)) = .ok true ∧
      ∀ name target, accepted = .sameFile name target →
        (Path.ofText target).isAbsolute = false ∧
          liesIn disk real (writtenNames target) = .ok true := by
  unfold accept at h
  dsimp only [bind, Except.bind, pure, Except.pure] at h
  rcases hreal : disk.realPath directory with fault | real
  · rw [hreal] at h
    cases h
  rw [hreal] at h
  dsimp only [orFail] at h
  rcases hlies : liesIn disk real (writtenNames (storedName member)) with fault | lies
  · rw [hlies] at h
    cases h
  rw [hlies] at h
  cases lies with
  | false => cases h
  | true =>
    refine ⟨real, rfl, ?_⟩
    dsimp only at h
    rw [if_neg (by simp)] at h
    -- The name has been checked for every kind of member; of links the target is checked too.
    cases member with
    | directory name =>
      obtain rfl := Except.ok.inj h
      exact ⟨⟨rfl, rfl, by rintro _ _ ⟨⟩⟩, hlies, by rintro _ _ ⟨⟩⟩
    | file name mode content =>
      obtain rfl := Except.ok.inj h
      exact ⟨⟨rfl, rfl, by rintro _ _ ⟨⟩⟩, hlies, by rintro _ _ ⟨⟩⟩
    | pipe => cases h
    | device => cases h
    | unknown => cases h
    | link name target =>
      dsimp only at h
      split at h
      · cases h
      · obtain rfl := Except.ok.inj h
        exact ⟨⟨rfl, rfl, by rintro _ _ ⟨⟩⟩, hlies, by rintro _ _ ⟨⟩⟩
    | sameFile name target =>
      dsimp only at h
      rcases hcheck : checkTarget disk real [] target with fault | ⟨⟩
      · rw [hcheck] at h
        cases h
      rw [hcheck] at h
      obtain rfl := Except.ok.inj h
      refine ⟨⟨rfl, rfl, fun _ _ heq => ⟨name, ?_⟩⟩, hlies, fun _ _ heq => ?_⟩
      all_goals obtain ⟨-, rfl⟩ := Member.sameFile.inj heq
      · rfl
      exact checkTarget_ok hcheck

/-- Names with a real path in a directory are resolved from there, to names behind those of the
directory. -/
theorem resolved_of_liesIn [Interpreter] (hwf : disk.WellFormed) (hdisk : disk.Ordinary)
    (hdirectory : disk.get? place = some .directory) (hreal : Denotes real place)
    {names : List Text} (h : liesIn disk ⟨.single, real⟩ names = .ok true) :
    ∃ outcome, Disk.resolveWith disk (disk.entries.length + 1) [] real names = .ok outcome ∧
      real <+: Path.collapse (outcome.1.filter fun name =>
        !name.isEmpty && name != Text.ofString ".") := by
  unfold liesIn at h
  dsimp only [bind, Except.bind, pure, Except.pure] at h
  rcases hpath : disk.realPath ⟨.single, real ++ names⟩ with fault | path
  · rw [hpath] at h
    cases h
  rw [hpath] at h
  have htraced := (Disk.realPath_eq_ok.1 hpath).2
  rw [Disk.path_trace, Disk.resolveWith_directory hwf hdisk hdirectory hreal] at htraced
  rcases hresolved :
      Disk.resolveWith disk (disk.entries.length + 1) [] real names with fault | outcome
  · rw [hresolved] at htraced
    cases htraced
  rw [hresolved] at htraced
  obtain rfl := Except.ok.inj htraced
  exact ⟨outcome, rfl, List.isPrefixOf_iff_prefix.1 (Except.ok.inj h)⟩

/-- The names of a text that does not begin with a slash are those between its slashes. -/
theorem writtenNames_of_relative {t : Text} (h : t.head? ≠ some (.char '/')) :
    writtenNames t = Text.split (.char '/') t := by
  unfold writtenNames
  rw [if_neg h]

/-- A walk follows the names of a member. -/
theorem followedNames_written {t : Text} (h : t.head? ≠ some (.char '/')) :
    followedNames (writtenNames t) = (memberNames t).map Utf8.canonical := by
  rw [writtenNames_of_relative h]
  rfl

/-- A name is stored without a slash in front. -/
theorem head_storedName (member : Member) : (storedName member).head? ≠ some (.char '/') := by
  intro hhead
  have hnot := List.head?_dropWhile_not (fun c => decide (c = CodePoint.char '/')) member.name
  unfold storedName at hhead
  rw [hhead] at hnot
  simp at hnot

/-- A relative target has no slash in front. -/
theorem head_of_relative {target : Text} (h : (Path.ofText target).isAbsolute = false) :
    target.head? ≠ some (.char '/') := by
  intro hhead
  cases target with
  | nil => cases hhead
  | cons c rest =>
    obtain rfl : c = .char '/' := by simpa using hhead
    rw [isAbsolute_slash] at h
    cases h

/-! ## Where the name leads -/

/-- The place of a free place or a file, with what is known of its names. -/
structure IsLoose (disk : Disk) (q parent : Place) (last : Text) : Prop where
  place : q = parent ++ [last]
  parent : disk.get? parent = some .directory
  loose : ∀ entry, disk.get? q = some entry → entry.isFile = true
  plain : ∀ name ∈ q, IsPlain name
  nonempty : ∀ name ∈ q, name ≠ []
  canonical : Utf8.canonical last = last

/-- A file is in a directory. -/
theorem isLoose_of_file (hregular : disk.Regular) {q : Place} {mode : Mode}
    {content : Content} (hfile : disk.get? q = some (.file mode content)) :
    ∃ parent last, IsLoose disk q parent last := by
  have hnames := hregular.names _ _ hfile
  rcases List.eq_nil_or_concat q with rfl | ⟨parent, last, hconcat⟩
  · cases hfile
  rw [List.concat_eq_append] at hconcat
  have hparent := hregular.dropLast hfile
  rw [hconcat, List.dropLast_concat] at hparent
  refine ⟨parent, last, hconcat, hparent, fun entry hentry => ?_,
    fun name hname => (hnames name hname).plain, fun name hname => (hnames name hname).nonempty,
    (hnames last (by simp [hconcat])).canonical⟩
  rw [hfile] at hentry
  rw [← Option.some.inj hentry]
  rfl

/-- A walk along names that are read ends at a free place or a file in a directory. -/
theorem isLoose_of_walk (hregular : disk.Regular) {through : Bool} {links : Nat} {q : Place}
    {names : List Text} (hnames : ∀ name ∈ names, name ≠ [])
    (hdirectory : disk.get? place = some .directory)
    (hwalk : Disk.walk disk through links place (names.map Utf8.canonical) = .ok q)
    (hloose : ∀ entry, disk.get? q = some entry → entry.isFile = true) :
    ∃ parent last, IsLoose disk q parent last := by
  rcases hget : disk.get? q with _ | entry
  · obtain ⟨parent, last, rfl, hparent, hplain, -, horigin⟩ :=
      Disk.walk_to_free hregular.toWellFormed hdirectory hwalk hget
    have hnames' : ∀ name ∈ parent, IsName name := hregular.names _ _ hparent
    have hlast : last ≠ [] ∧ Utf8.canonical last = last := by
      rcases horigin with hmem | ⟨r, target, hlink, hpiece⟩
      · obtain ⟨raw, hraw, rfl⟩ := List.mem_map.1 hmem
        exact ⟨Utf8.canonical_ne_nil (hnames raw hraw), Disk.canonical_canonical raw⟩
      · have hpart := (hregular.targets _ _ hlink).isPart hpiece
        exact ⟨hpart.nonempty, hpart.canonical⟩
    refine ⟨parent, last, rfl, hparent, hloose, fun name hname => ?_, fun name hname => ?_,
      hlast.2⟩
    all_goals rcases List.mem_append.1 hname with hold | hnew
    · exact (hnames' name hold).plain
    · exact List.mem_singleton.1 hnew ▸ hplain
    · exact (hnames' name hold).nonempty
    · exact List.mem_singleton.1 hnew ▸ hlast.1
  · cases entry with
    | file => exact isLoose_of_file hregular hget
    | directory => cases hloose _ hget
    | link => cases hloose _ hget

/-- Names whose real path lies in a directory lead into it where a walk along the first of them
comes to a free place or a file, if those behind do not go up. -/
theorem inside_of_liesIn [Interpreter] {left : Disk} (hguides : Disk.Guides left disk)
    (hwf : disk.WellFormed) (hdisk : disk.Ordinary) (hdirectory : disk.get? place = some .directory)
    (hreal : Denotes real place) {raw rest : List Text}
    (hlies : liesIn disk ⟨.single, real⟩ (raw ++ rest) = .ok true)
    (hup : ∀ name ∈ rest, Utf8.canonical name ≠ Text.ofString "..") {links : Nat} {q parent : Place}
    {last : Text} (hwalk : Disk.walk left true links place (followedNames raw) = .ok q)
    (hloose : IsLoose disk q parent last) : place <+: q := by
  obtain ⟨rfl, hparent, hfile, hplain, hnonempty, hcanonical⟩ := hloose
  obtain ⟨outcome, hresolved, hbelow⟩ := resolved_of_liesIn hwf hdisk hdirectory hreal hlies
  have hend := Disk.isEnd_of_loose hwf hparent hfile hplain ⟨hnonempty last (by simp), hcanonical⟩
  obtain ⟨names, hdenotes, hbehind⟩ := Disk.resolveWith_front hguides hreal hwalk hend hresolved
  obtain rfl := Disk.resolveWith_behind hwf hparent hfile (List.prefix_refl _) hplain hdenotes hup
    hbehind
  -- What is resolved has no dots left, so the real path is just that.
  have hdown : ∀ name ∈ names ++ rest.filter (fun name => !saysNothing name), LeadsDown name := by
    intro name hname
    rcases List.mem_append.1 hname with hfront | htail
    · have hmem : Utf8.canonical name ∈ parent ++ [last] :=
        hdenotes.read ▸ List.mem_map_of_mem hfront
      exact Disk.leadsDown_of_followed (.inr rfl) (hplain _ hmem) (hnonempty _ hmem)
    · obtain ⟨hmem, hcounts⟩ := List.mem_filter.1 htail
      refine ⟨by simpa using hcounts, ?_⟩
      rintro rfl
      exact hup _ hmem (Utf8.canonical_ofString "..")
  have hcollapse := Disk.collapse_below hdown (show Disk.lexical [] [] = some [] from rfl)
  rw [List.append_nil] at hcollapse
  dsimp only at hbelow
  rw [hcollapse] at hbelow
  have hread : place <+: (parent ++ [last]) ++
      (rest.filter fun name => !saysNothing name).map Utf8.canonical := by
    obtain ⟨tail, htail⟩ := hbelow
    refine ⟨tail.map Utf8.canonical, ?_⟩
    rw [← hreal.read, ← hdenotes.read, ← List.map_append, ← List.map_append, htail]
  rcases List.prefix_or_prefix_of_prefix hread (List.prefix_append _ _) with hinside | ⟨tail, rfl⟩
  · exact hinside
  · -- A directory is neither at a free place or a file nor below one.
    by_cases hnil : tail = []
    · exact ⟨[], by rw [hnil, List.append_nil, List.append_nil]⟩
    · have hnot : disk.get? (parent ++ [last]) ≠ some .directory := by
        intro hthere
        cases hfile _ hthere
      rw [hwf.below hnot hnil] at hdirectory
      cases hdirectory

/-- The links outside a place lead to no place at or below it, also where they nest too deep for the
interpreter. -/
def KeepsOut (disk : Disk) (place : Place) : Prop :=
  ∀ q target names real, ¬ place <+: q → disk.get? q = some (.link target) → Denotes names q →
    (disk.trace ⟨.single, names⟩).path = .ok real → ¬ place <+: readNames real

/-- What a link at the end of names leads to is what they lead to, but for names that say nothing
behind a link that leads back to itself: those can take all of it away. -/
theorem resolved_link (hregular : disk.Regular) (hdisk : disk.Ordinary) {r : Place}
    (hr : disk.get? r = some .directory) {here : List Text} (hhere : Denotes here r) {name : Text}
    (hplain : IsPlain (Utf8.canonical name)) (hnonempty : name ≠ []) {target : Text}
    (hlink : disk.get? (r ++ [Utf8.canonical name]) = some (.link target)) {blank : List Text}
    (hblank : ∀ n ∈ blank, n = []) {outcome : Disk.Resolved}
    (h : Disk.resolveWith disk (disk.entries.length + 1) [] here (name :: blank) = .ok outcome) :
    Denotes (here ++ [name]) (r ++ [Utf8.canonical name]) ∧
      ∃ real, (disk.trace ⟨.single, here ++ [name]⟩).path = .ok ⟨.single, real⟩ ∧
        (Path.collapse (outcome.1.filter fun name => !name.isEmpty && name != Text.ofString ".") =
            real ∨
          Path.collapse (outcome.1.filter fun name =>
            !name.isEmpty && name != Text.ofString ".") = []) := by
  have hwf := hregular.toWellFormed
  have hdown : LeadsDown name :=
    Disk.leadsDown_of_followed (.inr rfl) hplain (Utf8.canonical_ne_nil hnonempty)
  rw [Disk.resolveWith_eq] at h
  have hdenotes := hhere.concat (Disk.usable_of_resolveNames hdown h) rfl
  have hfound := hdenotes.find_link hwf hdisk (fun p entry hp => ⟨entry, hp, rfl⟩) hlink
  refine ⟨hdenotes, ?_⟩
  have hidle : ∀ n ∈ blank, saysNothing n = true := by
    intro n hn
    rw [hblank n hn]
    rfl
  have hfilter : ∀ names : List Text, (names ++ blank).filter (fun name =>
      !name.isEmpty && name != Text.ofString ".") =
        names.filter fun name => !name.isEmpty && name != Text.ofString "." := by
    intro names
    have hnone : blank.filter (fun name => !name.isEmpty && name != Text.ofString ".") = [] := by
      refine List.filter_eq_nil_iff.2 fun n hn => ?_
      rw [hblank n hn]
      simp
    rw [List.filter_append, hnone, List.append_nil]
  -- The link by its own path is resolved as it is behind the directory's names, but with nothing
  -- left behind it: what differs is what becomes of the names that say nothing.
  have hlone : Disk.resolveWith disk (disk.entries.length + 1) [] [] (here ++ [name]) =
      Disk.resolveNames disk [] (Disk.beyond disk (disk.entries.length + 1) []) here [name] := by
    rw [Disk.resolveWith_directory hwf hdisk hr hhere, Disk.resolveWith_eq]
  rw [Disk.resolveNames_link hdown hfound] at h
  rw [Disk.resolveNames_link hdown hfound] at hlone
  simp only [List.contains_nil, Bool.false_eq_true, if_false] at h hlone
  rw [Disk.path_trace, hlone]
  rcases hbeyond : Disk.beyond disk (disk.entries.length + 1) [] ⟨.single, here ++ [name]⟩
      (Disk.targetStart here target) (writtenNames target) with fault | ⟨names, arrived⟩
  · rw [hbeyond] at h
    cases h
  rw [hbeyond] at h
  cases arrived with
  | true =>
    dsimp only at h ⊢
    rw [resolveNames_idles hidle] at h
    obtain rfl := Except.ok.inj h
    rw [Disk.resolveNames]
    exact ⟨_, rfl, .inl rfl⟩
  | false =>
    dsimp only at h ⊢
    obtain rfl := Except.ok.inj h
    refine ⟨_, rfl, ?_⟩
    unfold Disk.leftAfter
    split
    next next rest =>
      right
      rw [List.filter_eq_nil_iff.2]
      · rfl
      intro n hn
      rw [hblank n (List.mem_cons_of_mem _ hn)]
      simp
    · left
      dsimp only
      rw [hfilter, List.append_nil]

/-! ## What may be unpacked stays inside -/

section Check

variable (hregular : disk.Regular) (hshort : Disk.ShortLinks disk)
  (hfound : disk.find false directory = .ok (place, .directory)) (hroot : place ≠ [])
include hregular hshort hfound

/-- The directory has a real path, and names that lie in it lie below that. -/
theorem exists_real [Interpreter] :
    ∃ real, disk.realPath directory = .ok ⟨.single, real⟩ ∧ Denotes real place :=
  Disk.realPath_of_find hregular.toWellFormed (hregular.ordinary hshort)
    (fun _ entry hp => ⟨entry, hp, rfl⟩) (Disk.find_through hfound)

/-- A walk along names that lie in the directory stays there as far as it comes to a free place or a
file. -/
theorem beginning_inside [Interpreter] (hreal : Denotes real place) {raw rest : List Text}
    (hlies : liesIn disk ⟨.single, real⟩ (raw ++ rest) = .ok true)
    (hup : ∀ name ∈ rest, Utf8.canonical name ≠ Text.ofString "..") {q : Place}
    (hwalk : Disk.walk disk true linkLimit [] (readNames directory ++ followedNames raw) = .ok q)
    (hloose : ∀ entry, disk.get? q = some entry → entry.isFile = true) : place <+: q := by
  have hwf := hregular.toWellFormed
  have hdisk := hregular.ordinary hshort
  have henters := Disk.enters_of_find hfound
  have hguides : Disk.Guides disk disk :=
    .of_extended hwf hdisk fun _ entry hp => ⟨entry, hp, rfl⟩
  by_cases hnil : followedNames raw = []
  · rw [hnil, List.append_nil, henters.arrives] at hwalk
    exact Except.ok.inj hwalk ▸ List.prefix_refl _
  obtain ⟨left, hgoes⟩ := henters.goes
  rw [hgoes _ _ hnil] at hwalk
  have hnonempty : ∀ name ∈ raw.filter (fun name => !name.isEmpty), name ≠ [] := by
    intro name hname
    simpa using (List.mem_filter.1 hname).2
  obtain ⟨parent, last, hend⟩ :=
    isLoose_of_walk hregular hnonempty henters.directory hwalk hloose
  exact inside_of_liesIn hguides hwf hdisk henters.directory hreal hlies hup hwalk hend

include hroot

/-- The link at the end of names that lie in the directory is in it, if links outside keep out of
it. -/
theorem link_inside [Interpreter] (hkeeps : KeepsOut disk place) (hreal : Denotes real place)
    {written : List Text}
    (hlies : liesIn disk ⟨.single, real⟩ written = .ok true) {q : Place} {target : Text}
    (hwalk : Disk.walk disk false linkLimit []
      (readNames directory ++ followedNames written) = .ok q)
    (hlink : disk.get? q = some (.link target)) : place <+: q := by
  have hwf := hregular.toWellFormed
  have hdisk := hregular.ordinary hshort
  obtain ⟨hthere, hdirectory⟩ := Disk.find_eq_ok.1 hfound
  have henters := Disk.enters_of_find hfound
  have hguides : Disk.Guides disk disk :=
    .of_extended hwf hdisk fun _ entry hp => ⟨entry, hp, rfl⟩
  rcases List.eq_nil_or_concat (written.filter fun name => !name.isEmpty) with hnil | hconcat
  · -- Without names the path is that of the directory, which is no link.
    rw [followedNames, hnil, List.map_nil, List.append_nil, (Disk.walk_of_locate hthere).2] at hwalk
    obtain rfl := Except.ok.inj hwalk
    cases hdirectory.symm.trans hlink
  obtain ⟨init, last, hconcat⟩ := hconcat
  rw [List.concat_eq_append] at hconcat
  obtain ⟨front, tail, rfl, hfront, htail⟩ := List.filter_eq_append_iff.1 hconcat
  obtain ⟨idle, blank, rfl, hidle, hlast, hblank⟩ := List.filter_eq_cons_iff.1 htail
  have hread : followedNames (front ++ (idle ++ last :: blank)) =
      followedNames front ++ [Utf8.canonical last] := by
    rw [followedNames, hconcat, List.map_append, followedNames, hfront, List.map_singleton]
  -- The walk comes to a directory, and the link is in it.
  obtain ⟨left, hgoes⟩ := henters.goes
  rw [hread, hgoes _ _ (by simp)] at hwalk
  obtain ⟨more, -, r, harrives, hr, hend⟩ := Disk.walk_append (List.cons_ne_nil _ _) hwalk
  have hnotdirectory : disk.get? q ≠ some .directory := by
    rw [hlink]
    rintro ⟨⟩
  rw [Disk.walk_eq] at hend
  obtain ⟨-, hcases⟩ := Disk.followNames_step hend
  rcases hcases with ⟨-, hdot⟩ | ⟨-, hup⟩ | ⟨hplain, -, hcases⟩
  · rw [Disk.followNames_nil] at hdot
    exact absurd (Except.ok.inj hdot ▸ hr) hnotdirectory
  · rw [Disk.followNames_nil] at hup
    exact absurd (Except.ok.inj hup ▸ hwf.dropLast hr) hnotdirectory
  have hq : q = r ++ [Utf8.canonical last] := by
    rcases hcases with ⟨-, -, hq⟩ | ⟨_, -, -, -, hq⟩ | ⟨_, -, hmore | hmore, -⟩ |
      ⟨_, -, -, hrest⟩
    · exact hq
    · exact hq
    · exact absurd rfl hmore
    · cases hmore
    · rw [Disk.followNames_nil] at hrest
      exact (Except.ok.inj hrest).symm
  subst hq
  have hnonempty : last ≠ [] := by simpa using hlast
  obtain ⟨outcome, hresolved, hbelow⟩ :=
    resolved_of_liesIn hwf hdisk hdirectory hreal hlies
  obtain ⟨here, hhere, hrest⟩ :=
    Disk.resolveWith_front hguides hreal harrives (hguides.isEnd hr) hresolved
  have hidle' : ∀ name ∈ idle, saysNothing name = true := by
    intro name hname
    obtain rfl : name = [] := by simpa using hidle name hname
    rfl
  rw [Disk.resolveWith_eq, Disk.resolveNames_idles hidle', ← Disk.resolveWith_eq] at hrest
  have hblank' : ∀ name ∈ blank, name = [] := by
    intro name hname
    simpa using List.filter_eq_nil_iff.1 hblank name hname
  obtain ⟨hdenotes, real', hreal', hsame | hnone⟩ :=
    resolved_link hregular hdisk hr hhere hplain hnonempty hlink hblank' hrest
  · by_contra hout
    refine hkeeps _ target _ _ hout hlink hdenotes hreal' ?_
    rw [hsame] at hbelow
    obtain ⟨more, hmore⟩ := hbelow
    exact ⟨more.map Utf8.canonical, by rw [← hreal.read, ← List.map_append, hmore]; rfl⟩
  · -- Of a path that is taken away nothing is left to lie below the directory.
    rw [hnone, List.prefix_nil] at hbelow
    rw [← hreal.read, hbelow] at hroot
    exact absurd rfl hroot

/-- The name of a member that may be unpacked stays in the directory, if it does not go up and links
outside keep out. -/
theorem stays_of_accept [Interpreter] (hkeeps : KeepsOut disk place)
    (hup : ∀ name ∈ memberNames (storedName member), Utf8.canonical name ≠ Text.ofString "..")
    (h : accept disk directory member = .ok accepted) :
    Stays place (readNames directory) ((memberNames accepted.name).map Utf8.canonical) disk := by
  obtain ⟨real, hrealPath, hreal⟩ := exists_real hregular hshort hfound
  obtain ⟨_, hsame, hrenamed, hlies, -⟩ := accept_ok h
  rw [hrealPath] at hsame
  obtain rfl := Except.ok.inj hsame
  have hwritten := followedNames_written (head_storedName member)
  rw [hrenamed.name, ← hwritten]
  refine ⟨fun front hfront q hwalk hloose => ?_, fun q entry hwalk hentry hnot => ?_⟩
  · -- The names that are followed are the first of those that are written.
    obtain ⟨rest, hrest⟩ := hfront
    obtain ⟨some, others, hsplit, rfl, -⟩ := List.map_eq_append_iff.1 hrest.symm
    obtain ⟨raw, behind, hraw, rfl, -⟩ := List.filter_eq_append_iff.1 hsplit
    rw [hraw] at hlies
    refine beginning_inside hregular hshort hfound hreal hlies
      (fun name hmem heq => ?_) hwalk hloose
    have hsome : name ≠ [] := by
      rintro rfl
      cases heq
    have hin : name ∈ (writtenNames (storedName member)).filter fun name => !name.isEmpty := by
      rw [hraw]
      exact List.mem_filter.2 ⟨List.mem_append_right _ hmem, by simpa using hsome⟩
    rw [writtenNames_of_relative (head_storedName member)] at hin
    exact hup name hin heq
  · cases entry with
    | directory => cases hnot
    | link target =>
      exact link_inside hregular hshort hfound hroot hkeeps hreal hlies hwalk hentry
    | file mode content =>
      have hloose : ∀ entry, disk.get? q = some entry → entry.isFile = true := by
        intro entry hget
        rw [hentry] at hget
        rw [← Option.some.inj hget]
        rfl
      have hthrough := Disk.walk_through (fun target hlink => by cases hloose _ hlink) hwalk
      rw [← List.append_nil (writtenNames _)] at hlies
      exact beginning_inside hregular hshort hfound hreal hlies (by simp) hthrough hloose

omit hroot in
/-- The file that a second name is given to is in the directory, also when directories have been
made since it was checked. -/
theorem source_of_accept [Interpreter] (h : accept disk directory member = .ok accepted)
    {path : Path} {left : Disk} (hsource : sourceOf directory accepted = some path)
    (hpaved : Paved disk left) (hleft : left.Regular) {origin : Place} {mode : Mode}
    {content : Content} (hfind : left.find false path = .ok (origin, .file mode content)) :
    place <+: origin := by
  have hwf := hregular.toWellFormed
  have hdisk := hregular.ordinary hshort
  obtain ⟨real, hrealPath, hreal⟩ := exists_real hregular hshort hfound
  obtain ⟨_, hsame, -, -, hchecked⟩ := accept_ok h
  rw [hrealPath] at hsame
  obtain rfl := Except.ok.inj hsame
  cases accepted with
  | sameFile name target =>
    obtain ⟨hrelative, hlies⟩ := hchecked name target rfl
    obtain rfl := Option.some.inj hsource
    obtain ⟨hlocate, hfile⟩ := Disk.find_eq_ok.1 hfind
    -- Directories that have been made since are no links, so the target is resolved as before.
    have hlinks : ∀ p target, left.get? p = some (.link target) ↔
        disk.get? p = some (.link target) := by
      intro p target
      rcases hpaved p with hkept | ⟨hfree, hnew⟩
      · rw [hkept]
      · simp [hfree, hnew]
    have horigin : disk.get? origin = some (.file mode content) := by
      rcases hpaved origin with hkept | ⟨-, hnew⟩
      · rw [← hkept, hfile]
      · rw [hfile] at hnew
        cases hnew
    have hwalk := Disk.walk_through (by simp [hfile]) (Disk.walk_of_locate hlocate).2
    have henters := (Disk.enters_of_find hfound).extended hpaved.extended
    have hread : readNames (pathBelow directory target) =
        readNames directory ++ followedNames (writtenNames target) := by
      rw [followedNames_written (head_of_relative hrelative)]
      exact List.map_append
    rw [hread] at hwalk
    by_cases hnil : followedNames (writtenNames target) = []
    · rw [hnil, List.append_nil, henters.arrives] at hwalk
      exact Except.ok.inj hwalk ▸ List.prefix_refl _
    obtain ⟨links, hgoes⟩ := henters.goes
    rw [hgoes _ _ hnil] at hwalk
    obtain ⟨parent, last, hloose⟩ := isLoose_of_file hregular horigin
    rw [← List.append_nil (writtenNames target)] at hlies
    exact inside_of_liesIn (.of_links hleft hwf hdisk hlinks) hwf hdisk
      (Disk.enters_of_find hfound).directory hreal hlies (by simp) hwalk hloose
  | directory => cases hsource
  | file => cases hsource
  | link => cases hsource
  | pipe => cases hsource
  | device => cases hsource
  | unknown => cases hsource

end Check

/-! ## All members -/

/-- No link outside a place leads into it, whatever the place comes to hold. -/
def Secluded (disk : Disk) (place : Place) : Prop :=
  ∀ other : Disk, other.WellFormed →
    (∀ q target, ¬ place <+: q →
      (other.get? q = some (.link target) ↔ disk.get? q = some (.link target))) →
    KeepsOut other place

/-- Where there is no link outside a place, none leads into it. -/
theorem secluded_of_check
    (h : (disk.allBelow [] fun q entry => place.isPrefixOf q || !entry.isLink) = true) :
    Secluded disk place := by
  intro other _ hlinks q target names real hout hlink
  have hcheck := Disk.of_allBelow h ((hlinks q target hout).1 hlink)
  rw [Bool.or_eq_true, List.isPrefixOf_iff_prefix] at hcheck
  rcases hcheck with hbelow | hnot
  · exact absurd hbelow hout
  · cases hnot

/-- No part of the member's name goes up. -/
def GoesDown (member : Member) : Prop :=
  ∀ name ∈ memberNames member.name, Utf8.canonical name ≠ Text.ofString ".."

instance (member : Member) : Decidable (GoesDown member) :=
  inferInstanceAs (Decidable (∀ _ ∈ _, _))

/-- The paths to links stay short while members are unpacked one after the other. -/
def StaysShort [Interpreter] (directory : Path) (contents : Contents) (before members : List Member)
    (disk : Disk) : Prop :=
  ∀ done, done <+: members →
    Disk.ShortLinks ((unpackMembers directory contents before done).perform disk).2

/-- The paths to links can be checked to stay short. -/
theorem staysShort_of_check [Interpreter] {contents : Contents} {before members : List Member}
    (h : (members.inits.all fun done =>
      ((unpackMembers directory contents before done).perform disk).2.hasShortLinks) = true) :
    StaysShort directory contents before members disk :=
  fun done hdone =>
    Disk.shortLinks_of_check (List.all_eq_true.1 h done ((List.mem_inits _ _).2 hdone))

/-- Slashes in front of a name do not count. -/
theorem memberNames_storedName (member : Member) :
    memberNames (storedName member) = memberNames member.name := by
  have hdrop : ∀ t : Text, memberNames (t.dropWhile (· = .char '/')) = memberNames t := by
    intro t
    induction t with
    | nil => rfl
    | cons c t ih =>
      by_cases hslash : c = .char '/'
      · subst hslash
        rw [List.dropWhile_cons_of_pos (by simp), ih]
        have hsplit : Text.split (.char '/') (.char '/' :: t) = [] :: Text.split (.char '/') t :=
          Text.split_append_cons (List.not_mem_nil) t
        rw [memberNames, memberNames, hsplit, List.filter_cons_of_neg (by simp)]
      · rw [List.dropWhile_cons_of_neg (by simpa using hslash)]
  exact hdrop member.name

/-- The outcome of a member from that of the work on it: a member that is left out is done. -/
def settled : Except Stop Unit → Except Stop Unit
  | .error .leftOut => .ok ()
  | outcome => outcome

/-- A member ends as the work on the one that is accepted in its place, if one is. -/
theorem ends_unpackMember [Interpreter] {post : Except Stop Unit → Disk → Prop}
    {contents : Contents} {before : List Member} (hrefused : ∀ f, post (.error (.failure f)) disk)
    (haccepted : ∀ accepted, accept disk directory member = .ok accepted →
      Ends (unpackAt contents Interpreter.replacing (pathBelow directory accepted.name)
        (sourceOf directory accepted) before accepted) disk fun outcome left =>
          post (settled outcome) left) :
    Ends (unpackMember directory contents before member) disk post := by
  refine ends_get ?_
  rcases haccept : accept disk directory member with f | accepted
  · exact hrefused f
  refine ends_tryCatch (haccepted accepted haccept) (fun _ _ hleft => hleft)
    fun stop left hleft => ?_
  cases stop with
  | leftOut => exact ends_pure hleft
  | failure f => exact ends_throw hleft

/-- An archive leaves the disk that is left where unpacking what it holds ends. -/
theorem unpack_of_ends [Interpreter] {base : Disk} {archive : Path} {post : Disk → Prop}
    (hkept : post base)
    (h : ∀ content, base.read archive = .ok content →
      Ends (unpackContents directory (contentsOf content)) base fun _ left => post left) :
    post (unpack base archive directory).2 := by
  unfold unpack
  rcases hread : base.read archive with fault | content
  · exact hkept
  have hends := h content hread
  unfold Ends perform at hends
  dsimp only
  rcases hrun : StateT.run (ExceptT.run (unpackContents directory (contentsOf content))) base with
    ⟨stop | _, left⟩
  all_goals rw [hrun] at hends
  · cases stop <;> exact hends
  · exact hends

section Members

variable {base : Disk} (hbase : base.find false directory = .ok (place, .directory))
  (hbare : ∀ q entry, place <+: q → base.get? q = some entry → entry = .directory)
  (hroot : place ≠ []) (hsecluded : Secluded base place)
include hbase hbare hroot hsecluded

/-- A member whose name does not go up is unpacked inside the directory, if it is unpacked at all.
-/
theorem unpackMember_within [Interpreter] (hwithin : Within place place base disk)
    (hshort : Disk.ShortLinks disk) (hdown : GoesDown member) (contents : Contents)
    (before : List Member) :
    Ends (unpackMember directory contents before member) disk fun _ left =>
      Within place place base left := by
  have hfound : disk.find false directory = .ok (place, .directory) := by
    obtain ⟨hlocate, hthere⟩ := Disk.find_eq_ok.1 hbase
    exact Disk.find_eq_ok.2 ⟨Disk.locate_kept hwithin.extended hlocate,
      hwithin.extended.directory hthere⟩
  have hkeeps : KeepsOut disk place := by
    refine hsecluded disk hwithin.regular.toWellFormed fun q target hout => ?_
    rw [hwithin.outside q hout]
  refine ends_unpackMember (fun _ => hwithin) fun accepted haccepted => ?_
  have hup : ∀ name ∈ memberNames (storedName member),
      Utf8.canonical name ≠ Text.ofString ".." := by
    rw [memberNames_storedName]
    exact hdown
  have hstays := stays_of_accept hwithin.regular hshort hfound hroot hkeeps hup haccepted
  obtain ⟨-, -, hrenamed, -⟩ := accept_ok haccepted
  have hheading : Heading place place directory (memberNames accepted.name) base := by
    refine ⟨List.prefix_refl _, Disk.find_through hbase, hbare, fun name hmem => ?_, fun hmem => ?_⟩
    · obtain ⟨hsplit, hnonempty⟩ := List.mem_filter.1 hmem
      exact ⟨by simpa using hnonempty, Disk.slashless_of_mem_split hsplit⟩
    · obtain ⟨name, hin, hread⟩ := List.mem_map.1 hmem
      exact hup name (hrenamed.name ▸ hin) hread
  exact unpackAt_within hheading ⟨hwithin, hstays⟩ contents Interpreter.replacing
    (sourceOf directory accepted)
    (fun path left hsource hpaved hleft origin mode content hfind =>
      source_of_accept hwithin.regular hshort hfound haccepted hsource hpaved hleft hfind)
    before accepted

/-- Members whose names do not go up are unpacked inside the directory, as far as they are. -/
theorem unpackMembers_within [Interpreter] (hwithin : Within place place base disk)
    {members : List Member} (hdown : ∀ member ∈ members, GoesDown member) (contents : Contents)
    (before : List Member) (hshort : StaysShort directory contents before members disk) :
    Ends (unpackMembers directory contents before members) disk fun _ left =>
      Within place place base left := by
  induction members generalizing disk before with
  | nil => exact ends_pure hwithin
  | cons member rest ih =>
    have hmember := unpackMember_within hbase hbare hroot hsecluded hwithin
      (hshort [] (List.nil_prefix)) (hdown member List.mem_cons_self) contents before
    refine ends_bind (m := fun outcome left => Within place place base left ∧
      (outcome = .ok () → StaysShort directory contents (member :: before) rest left)) ?_
      (fun _ _ hleft => hleft.1) fun _ left hleft => ?_
    · refine ⟨hmember, fun hok done hdone => ?_⟩
      have hmore := hshort (member :: done) (List.cons_prefix_cons.2 ⟨rfl, hdone⟩)
      rcases hperform : (unpackMember directory contents before member).perform disk with
        ⟨outcome, left⟩
      rw [hperform] at hok
      obtain rfl : outcome = .ok () := hok
      rwa [unpackMembers, Unpack.perform_bind_ok _ hperform] at hmore
    · exact ih hleft.1 (fun m hm => hdown m (List.mem_cons_of_mem _ hm)) _ (hleft.2 rfl)

/-- All that an archive holds is unpacked inside the directory, if no name goes up. -/
theorem unpackContents_within [Interpreter] (hwithin : Within place place base disk)
    {contents : Contents}
    (hdown : ∀ member ∈ contents.members ++ contents.broken.toList, GoesDown member)
    (hshort : StaysShort directory contents [] contents.members disk) :
    Ends (unpackContents directory contents) disk fun _ left => Within place place base left := by
  have hmembers := unpackMembers_within hbase hbare hroot hsecluded hwithin
    (fun m hm => hdown m (List.mem_append_left _ hm)) contents [] hshort
  refine ends_bind (m := fun _ left => Within place place base left ∧ Disk.ShortLinks left)
    ⟨hmembers, hshort _ (List.prefix_refl _)⟩ (fun _ _ hleft => hleft.1) fun _ left hleft => ?_
  have hfault : ∀ last, Within place place base last →
      Ends (reportFault contents.fault) last fun _ last => Within place place base last := by
    intro last hlast
    cases contents.fault with
    | none => exact ends_pure hlast
    | some fault => exact ends_throw hlast
  rcases hbroken : contents.broken with _ | member
  · exact hfault left hleft.1
  · refine ends_bind (unpackMember_within hbase hbare hroot hsecluded hleft.1 hleft.2
      (hdown member (by simp [hbroken])) contents _) (fun _ _ hlast => hlast) fun _ last hlast => ?_
    exact hfault last hlast

end Members

/-- An archive whose names do not go up is unpacked inside the directory, however unpacking ends. -/
theorem unpack_within [Interpreter] {base : Disk} {archive : Path}
    (hwithin : Within place place base base)
    (hbase : base.find false directory = .ok (place, .directory))
    (hbare : ∀ q entry, place <+: q → base.get? q = some entry → entry = .directory)
    (hroot : place ≠ []) (hsecluded : Secluded base place)
    (hcontents : ∀ content, base.read archive = .ok content →
      (∀ member ∈ (contentsOf content).members ++ (contentsOf content).broken.toList,
        GoesDown member) ∧
      StaysShort directory (contentsOf content) [] (contentsOf content).members base) :
    Within place place base (unpack base archive directory).2 := by
  refine unpack_of_ends hwithin fun content hread => ?_
  obtain ⟨hdown, hshort⟩ := hcontents content hread
  exact unpackContents_within hbase hbare hroot hsecluded hwithin hdown hshort

end ProviderKit.Archive
