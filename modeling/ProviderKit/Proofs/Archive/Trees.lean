import ProviderKit.Proofs.Archive.Accepted

/-!
# Archives of trees

In an archive that was packed from a tree a directory comes before what is in it, and nothing comes
at or below a name that belongs to something else (`Follows`). Such an archive stays in the
directory that it is unpacked into whatever links there are outside (`unpackTree_within`): the names
of a member lead through directories that have been unpacked before it, and so to no other place.
The invariant is `Unfolded`, and one member keeps it (`unpackMember_unfolds`).
-/

namespace ProviderKit.Archive

open Disk (IsName Within Stays readNames linkLimit)
open Unpack

/-- Names that lead on from a directory, each but the last to a directory again. -/
structure Leads (disk : Disk) (place : Place) (x : List Text) : Prop where
  nonempty : x ≠ []
  names : ∀ name ∈ x, IsName name
  directories : ∀ y, y <+: x → y ≠ x → disk.get? (place ++ y) = some .directory

/-- The names of a member after others: those above it belong to directories among the others, and
what it names as a file of its own does too, but nothing else of the others is above it or below it.
-/
structure Follows (before : List Member) (member : Member) : Prop where
  nonempty : memberNames member.name ≠ []
  names : ∀ name ∈ memberNames member.name, IsName name
  above : ∀ x, x <+: memberNames member.name → x ≠ memberNames member.name → x ≠ [] →
    ∃ other ∈ before, isFolder other = true ∧ memberNames other.name = x
  apart : ∀ other ∈ before, isFolder other = false →
    ¬ memberNames other.name <+: memberNames member.name ∧
      ¬ memberNames member.name <+: memberNames other.name
  source : ∀ name target, member = .sameFile name target → memberNames target ≠ [] ∧
    (∀ name ∈ memberNames target, IsName name) ∧
    ∀ x, x <+: memberNames target → x ≠ memberNames target → x ≠ [] →
      ∃ other ∈ before, isFolder other = true ∧ memberNames other.name = x

/-- Some members have been unpacked into a directory that was empty: the directories among them are
there, and whatever else is there is at or below the place of another one. -/
structure Unfolded (place : Place) (base : Disk) (before : List Member) (disk : Disk) : Prop where
  within : Within place place base disk
  folders : ∀ member ∈ before, isFolder member = true →
    disk.get? (place ++ memberNames member.name) = some .directory
  others : ∀ x entry, disk.get? (place ++ x) = some entry → entry ≠ .directory →
    ∃ member ∈ before, isFolder member = false ∧ memberNames member.name <+: x

/-! ## Where names lead -/

/-- The first of some names lead through the same directories. -/
theorem Leads.front {disk : Disk} {place : Place} {x : List Text} (hleads : Leads disk place x)
    {front : List Text} (hfront : front <+: x) (hsome : front ≠ []) : Leads disk place front := by
  refine ⟨hsome, fun name hname => hleads.names name (hfront.subset hname), fun y hy hne => ?_⟩
  refine hleads.directories y (hy.trans hfront) fun heq => ?_
  have hlength := heq ▸ hfront.length_le
  exact hne (hy.eq_of_length_le (heq ▸ hlength))

/-- They do so also when directories have come at free places. -/
theorem Leads.paved {disk left : Disk} {place : Place} {x : List Text} (hleads : Leads disk place x)
    (hpaved : Paved disk left) : Leads left place x :=
  ⟨hleads.nonempty, hleads.names,
    fun y hy hne => hpaved.extended.directory (hleads.directories y hy hne)⟩

section Leads

variable {disk : Disk} {directory : Path} {place : Place} {x : List Text}
  (hfound : disk.find true directory = .ok (place, .directory)) (hleads : Leads disk place x)
include hfound hleads

/-- Names that lead through directories lead straight to their place, if they lead anywhere. -/
theorem Leads.arrives {q : Place}
    (hwalk : Disk.walk disk false linkLimit [] (readNames directory ++ x) = .ok q) :
    q = place ++ x := by
  obtain ⟨hlocate, hdirectory⟩ := Disk.find_eq_ok.1 hfound
  have henters : Disk.Enters disk directory place := ⟨(Disk.walk_of_locate hlocate).2, hdirectory⟩
  obtain ⟨left, hgoes⟩ := henters.goes
  rw [hgoes _ _ hleads.nonempty] at hwalk
  rcases Disk.walk_straight disk left place (fun name hname => (hleads.names name hname).plain)
    (fun y hy _ hne target => by simp [hleads.directories y hy hne]) with hthere | ⟨reason, hstuck⟩
  · rw [hthere] at hwalk
    exact (Except.ok.inj hwalk).symm
  · rw [hstuck] at hwalk
    cases hwalk

/-- So they do where a link at the end is followed, if there is none. -/
theorem Leads.arrives_through (hlink : ∀ target, disk.get? (place ++ x) ≠ some (.link target))
    {q : Place}
    (hwalk : Disk.walk disk true linkLimit [] (readNames directory ++ x) = .ok q) :
    q = place ++ x := by
  obtain ⟨r, hshort, hr⟩ := Disk.walk_short hwalk
  obtain rfl := hleads.arrives hfound hshort
  rcases hr with rfl | ⟨target, htarget⟩
  · rfl
  · exact absurd htarget (hlink target)

/-- Names that lead through directories to something else than a link stay at their place. -/
theorem Leads.stays (hlink : ∀ target, disk.get? (place ++ x) ≠ some (.link target)) :
    Stays (place ++ x) (readNames directory) x disk := by
  have hdirectory := (Disk.find_eq_ok.1 hfound).2
  refine ⟨fun front hfront q hwalk hloose => ?_, fun q entry hwalk _ _ => ?_⟩
  · have hnot : disk.get? q ≠ some .directory := fun hthere => by cases hloose _ hthere
    by_cases hnil : front = []
    · rw [hnil, List.append_nil, (Disk.walk_of_locate (Disk.find_eq_ok.1 hfound).1).2] at hwalk
      exact absurd (Except.ok.inj hwalk ▸ hdirectory) hnot
    by_cases hall : front = x
    · subst hall
      exact hleads.arrives_through hfound hlink hwalk ▸ List.prefix_refl _
    · -- Before the last name there are directories only.
      have hthere := hleads.directories front hfront hall
      rw [(hleads.front hfront hnil).arrives_through hfound (by simp [hthere]) hwalk] at hnot
      exact absurd hthere hnot
  · exact hleads.arrives hfound hwalk ▸ List.prefix_refl _

end Leads

/-! ## One member -/

/-- Work on the directories above a member is never left out. -/
theorem makeParent_not_leftOut [Interpreter] (path : Path) (disk : Disk) :
    Ends (makeParent path) disk fun outcome _ => outcome ≠ .error .leftOut := by
  have hensure : ∀ (path : Path) (disk : Disk),
      Ends (ensureDirectory path) disk fun outcome _ => outcome ≠ .error .leftOut := by
    intro path disk
    refine ends_get ?_
    rcases disk.makeDirectory path with fault | made
    · refine ends_get ?_
      split
      · exact ends_throw (by rintro ⟨⟩)
      · exact ends_pure (by rintro ⟨⟩)
    · exact fun h => by cases h
  have hupper : ∀ (levels : Nat) (path : Path) (disk : Disk),
      Ends (makeUpper levels path) disk fun outcome _ => outcome ≠ .error .leftOut := by
    intro levels
    induction levels with
    | zero =>
      intro path disk
      rw [makeUpper.eq_def]
      refine ends_get ?_
      split
      · exact ends_throw (by rintro ⟨⟩)
      · exact hensure path disk
    | succ levels ih =>
      intro path disk
      rw [makeUpper.eq_def]
      refine ends_get ?_
      dsimp only
      split
      · refine ends_bind (m := fun outcome _ => outcome ≠ .error .leftOut) ?_
          (fun stop _ hstop => hstop) fun _ left _ => ?_
        · refine ends_tryCatch (ih path.parent disk) (fun _ _ hleft => hleft)
            fun stop left hleft => ?_
          split
          · exact ends_pure (by rintro ⟨⟩)
          · exact ends_throw hleft
        · split
          · exact ends_pure (by rintro ⟨⟩)
          · exact hensure path left
      · exact hensure path disk
  refine ends_get ?_
  split
  · exact hupper _ _ _
  · exact ends_pure (by rintro ⟨⟩)

/-- Only a second name is given to something. -/
theorem sourceOf_eq_some {directory path : Path} {member : Member}
    (h : sourceOf directory member = some path) :
    ∃ name target, member = .sameFile name target ∧ path = pathBelow directory target := by
  cases member with
  | sameFile name target => exact ⟨name, target, rfl, (Option.some.inj h).symm⟩
  | _ => cases h

/-- A path to a directory. -/
theorem isDirectory_eq_true {disk : Disk} {path : Path} :
    isDirectory disk path = true ↔ ∃ place, disk.find true path = .ok (place, .directory) := by
  unfold isDirectory
  constructor
  · intro h
    split at h
    next place hfind => exact ⟨place, hfind⟩
    · cases h
  · rintro ⟨place, hfind⟩
    rw [hfind]

/-- A member that is a directory. -/
theorem eq_directory {member : Member} (h : isFolder member = true) :
    ∃ name, member = .directory name := by
  cases member with
  | directory name => exact ⟨name, rfl⟩
  | _ => cases h

section Member

variable {disk base : Disk} {directory : Path} {place : Place} {before : List Member}
  {member : Member}

/-- Behind members that it follows the names of a member lead through directories. -/
theorem Unfolded.leads (h : Unfolded place base before disk)
    (hdirectory : disk.get? place = some .directory) {x : List Text} (hsome : x ≠ [])
    (hnames : ∀ name ∈ x, IsName name)
    (habove : ∀ y, y <+: x → y ≠ x → y ≠ [] →
      ∃ other ∈ before, isFolder other = true ∧ memberNames other.name = y) :
    Leads disk place x := by
  refine ⟨hsome, hnames, fun y hy hne => ?_⟩
  by_cases hnil : y = []
  · rw [hnil, List.append_nil]
    exact hdirectory
  · obtain ⟨other, hmem, hfolder, rfl⟩ := habove y hy hne hnil
    exact h.folders other hmem hfolder

/-- At and below the place of a member that is to come there are directories at most. -/
theorem Unfolded.bare (h : Unfolded place base before disk) (hfollows : Follows before member)
    {q : Place} {entry : Entry} (hbelow : place ++ memberNames member.name <+: q)
    (hget : disk.get? q = some entry) : entry = .directory := by
  obtain ⟨rest, rfl⟩ := hbelow
  by_contra hnot
  rw [List.append_assoc] at hget
  obtain ⟨other, hmem, hother, hprefix⟩ := h.others _ _ hget hnot
  obtain ⟨hnot, hnot'⟩ := hfollows.apart other hmem hother
  rcases List.prefix_or_prefix_of_prefix hprefix (List.prefix_append _ _) with habove | hbelow
  · exact hnot habove
  · exact hnot' hbelow

/-- A directory is made where it belongs, if it is not there. -/
theorem unpackDirectory_made {top : Place} {names : List Text}
    (hheading : Heading place top directory names base)
    (h : OnCourse place top directory names base disk) :
    Ends (unpackDirectory ⟨directory.root, directory.names ++ names⟩) disk fun outcome left =>
      OnCourse place top directory names base left ∧ Paved disk left ∧
        (outcome = .ok () →
          isDirectory left ⟨directory.root, directory.names ++ names⟩ = true) ∧
        outcome ≠ .error .leftOut := by
  refine ends_get ?_
  rcases hmade : disk.makeDirectory ⟨directory.root, directory.names ++ names⟩ with fault | made
  · refine ends_get ?_
    split
    · exact ends_throw ⟨h, fun _ => .inl rfl, by rintro ⟨⟩, by rintro ⟨⟩⟩
    next hthere =>
      refine ends_pure ⟨h, fun _ => .inl rfl, fun _ => ?_, by rintro ⟨⟩⟩
      simp only [Bool.or_eq_true, not_or, Bool.not_eq_true', Bool.not_eq_true] at hthere
      simpa using hthere.2
  · obtain ⟨hcourse, hpaved⟩ := h.makeDirectory hheading (List.prefix_refl _) hmade
    obtain ⟨q, hlocate, hfree, rfl⟩ := Disk.makeDirectory_ok hmade
    have hthere : isDirectory (disk.put q .directory)
        ⟨directory.root, directory.names ++ names⟩ = true := by
      rw [isDirectory, Disk.find_through (Disk.find_put_directory hlocate hfree)]
    exact ⟨hcourse, hpaved, fun _ => hthere, by rintro ⟨⟩⟩

/-- A member that is a directory comes at its place with the directories above it. -/
theorem unpackFolder_made [Interpreter] {top : Place} {names : List Text}
    (hheading : Heading place top directory names base)
    (h : OnCourse place top directory names base disk) (contents : Contents) (fuel : Nat)
    (source : Option Path) (before : List Member) (name : Text) :
    Ends (unpackAt contents fuel ⟨directory.root, directory.names ++ names⟩ source before
      (.directory name)) disk fun outcome left =>
        OnCourse place top directory names base left ∧ Paved disk left ∧
          (outcome = .ok () →
            isDirectory left ⟨directory.root, directory.names ++ names⟩ = true) ∧
          outcome ≠ .error .leftOut := by
  obtain ⟨instead, heq⟩ := unpackAt_eq contents fuel ⟨directory.root, directory.names ++ names⟩
    source before (.directory name)
  rw [heq]
  unfold unpackWith
  refine ends_bind (m := fun outcome left =>
    (OnCourse place top directory names base left ∧ Paved disk left) ∧ outcome ≠ .error .leftOut)
    ⟨makeParent_paves hheading h, makeParent_not_leftOut _ _⟩
    (fun stop left hleft => ⟨hleft.1.1, hleft.1.2, by rintro ⟨⟩, fun heq => hleft.2 (by rw [heq])⟩)
    fun _ left hleft => ?_
  obtain ⟨⟨hcourse, hpaved⟩, -⟩ := hleft
  refine (unpackDirectory_made hheading hcourse).mono fun outcome last hlast => ?_
  exact ⟨hlast.1, hpaved.trans hlast.2.1, hlast.2.2⟩

/-- A member has been unpacked at its place, and if it is a directory then there are only
directories more. -/
theorem Unfolded.add (h : Unfolded place base before disk) {left : Disk}
    (hleft : Within place (place ++ memberNames member.name) disk left)
    (hfolder : isFolder member = true → Paved disk left ∧
      left.get? (place ++ memberNames member.name) = some .directory) :
    Unfolded place base (member :: before) left := by
  refine ⟨h.within.trans (List.prefix_append _ _) hleft, fun other hmem hother => ?_,
    fun x entry hget hne => ?_⟩
  · rcases List.mem_cons.1 hmem with rfl | hold
    · exact (hfolder hother).2
    · exact hleft.extended.directory (h.folders other hold hother)
  · have hfound : ∀ entry', disk.get? (place ++ x) = some entry' → entry' ≠ .directory →
        ∃ other ∈ member :: before, isFolder other = false ∧ memberNames other.name <+: x := by
      intro entry' hget' hne'
      obtain ⟨other, hmem, hother⟩ := h.others x entry' hget' hne'
      exact ⟨other, List.mem_cons_of_mem _ hmem, hother⟩
    cases hkind : isFolder member with
    | true =>
      rcases (hfolder hkind).1 (place ++ x) with hsame | ⟨-, hnew⟩
      · exact hfound entry (hsame ▸ hget) hne
      · rw [hget] at hnew
        exact absurd (Option.some.inj hnew) hne
    | false =>
      by_cases hbelow : memberNames member.name <+: x
      · exact ⟨member, List.mem_cons_self, hkind, hbelow⟩
      · have hsame := hleft.elsewhere (place ++ x) (by rwa [List.prefix_append_right_inj])
        rw [hget] at hsame
        obtain ⟨entry', hget', hseen⟩ := Option.map_eq_some_iff.1 hsame.symm
        refine hfound entry' hget' ?_
        rintro rfl
        cases entry with
        | directory => exact hne rfl
        | file => cases hseen
        | link => cases hseen

section Following

variable (hfound : disk.find true directory = .ok (place, .directory))
  (h : Unfolded place base before disk) (hfollows : Follows before member)
include hfound h hfollows

/-- The names of a member that follows others lead through directories. -/
theorem Unfolded.leads_member : Leads disk place (memberNames member.name) :=
  h.leads (Disk.find_eq_ok.1 hfound).2 hfollows.nonempty hfollows.names hfollows.above

/-- They head for its place, where there are directories at most. -/
theorem Unfolded.heading :
    Heading place (place ++ memberNames member.name) directory (memberNames member.name) disk := by
  refine ⟨List.prefix_append _ _, hfound, fun q entry hq hget => h.bare hfollows hq hget,
    fun name hname => ?_, fun hup => ?_⟩
  · have hgood := hfollows.names name hname
    exact ⟨hgood.nonempty, hgood.slashless⟩
  · rw [Disk.map_canonical hfollows.names] at hup
    exact (hfollows.names _ hup).plain.2 rfl

/-- No link is at its place, so the names stay there. -/
theorem Unfolded.onCourse :
    OnCourse place (place ++ memberNames member.name) directory (memberNames member.name)
      disk disk := by
  refine ⟨.start h.within.regular h.within.apart, ?_⟩
  rw [Disk.map_canonical hfollows.names]
  refine (h.leads_member hfound hfollows).stays hfound fun target hlink => ?_
  cases h.bare hfollows (List.prefix_refl _) hlink

/-- A member that is a directory is there when it has been unpacked. -/
theorem unpackFolder_unfolds [Interpreter] (contents : Contents) (fuel : Nat) (source : Option Path)
    (name : Text) :
    Ends (unpackAt contents fuel ⟨directory.root, directory.names ++ memberNames member.name⟩ source
      before (.directory name)) disk fun outcome left => Within place place base left ∧
        (settled outcome = .ok () → Unfolded place base (member :: before) left) := by
  refine (unpackFolder_made (h.heading hfound hfollows) (h.onCourse hfound hfollows) contents fuel
    source before name).mono fun outcome left hleft => ?_
  obtain ⟨hcourse, hpaved, hmade, hkept⟩ := hleft
  refine ⟨h.within.trans (List.prefix_append _ _) hcourse.within, fun hdone => ?_⟩
  refine h.add hcourse.within fun _ => ⟨hpaved, ?_⟩
  have hbare : ∀ target, left.get? (place ++ memberNames member.name) ≠ some (.link target) := by
    intro target hlink
    rcases hpaved (place ++ memberNames member.name) with hsame | ⟨-, hnew⟩
    · cases h.bare hfollows (List.prefix_refl _) (hsame ▸ hlink)
    · rw [hlink] at hnew
      cases hnew
  -- A directory is never left out, so it has been made or was there.
  have hok : outcome = .ok () := by
    rcases outcome with stop | _
    · cases stop with
      | leftOut => exact absurd rfl hkept
      | failure => cases hdone
    · rfl
  obtain ⟨q, hfind⟩ := isDirectory_eq_true.1 (hmade hok)
  obtain ⟨hlocate, hthere⟩ := Disk.find_eq_ok.1 hfind
  have hwalk := (Disk.walk_of_locate hlocate).2
  rw [readNames_append, Disk.map_canonical hfollows.names] at hwalk
  exact ((h.leads_member hfound hfollows).paved hpaved).arrives_through
    (hcourse.within.enters hfound) hbare hwalk ▸ hthere

/-- What a member is a second name of is inside the directory. -/
theorem Unfolded.source_inside {accepted : Member} (hrenamed : Renamed member accepted)
    {path : Path}
    {left : Disk} (hsource : sourceOf directory accepted = some path) (hpaved : Paved disk left)
    {origin : Place} {mode : Mode} {content : Content}
    (hfind : left.find false path = .ok (origin, .file mode content)) : place <+: origin := by
  obtain ⟨name, target, rfl, rfl⟩ := sourceOf_eq_some hsource
  obtain ⟨name', rfl⟩ := hrenamed.target name target rfl
  obtain ⟨hsome, hgood, habove⟩ := hfollows.source name' target rfl
  have hwalk := (Disk.walk_of_locate (Disk.find_eq_ok.1 hfind).1).2
  rw [pathBelow, readNames_append, Disk.map_canonical hgood] at hwalk
  have hleads := (h.leads (Disk.find_eq_ok.1 hfound).2 hsome hgood habove).paved hpaved
  exact hleads.arrives (Disk.find_directory_of_extended hpaved.extended hfound) hwalk ▸
    List.prefix_append _ _

end Following

/-- Unpacking a member that follows those before it keeps all as it should be, also if the member is
left out. -/
theorem unpackMember_unfolds [Interpreter]
    (hbase : base.find true directory = .ok (place, .directory))
    (h : Unfolded place base before disk) (hfollows : Follows before member) (contents : Contents) :
    Ends (unpackMember directory contents before member) disk fun outcome left =>
      Within place place base left ∧
        (outcome = .ok () → Unfolded place base (member :: before) left) := by
  have hfound := h.within.enters hbase
  refine ends_unpackMember (fun _ => ⟨h.within, by rintro ⟨⟩⟩) fun accepted haccepted => ?_
  obtain ⟨-, -, hrenamed, -⟩ := accept_ok haccepted
  have hpath : pathBelow directory accepted.name =
      ⟨directory.root, directory.names ++ memberNames member.name⟩ := by
    rw [pathBelow, hrenamed.name, memberNames_storedName]
  rw [hpath]
  cases hkind : isFolder member with
  | true =>
    obtain ⟨name, rfl⟩ := eq_directory (hrenamed.folder.trans hkind)
    exact unpackFolder_unfolds hfound h hfollows contents _ _ name
  | false =>
    refine (unpackAt_within (h.heading hfound hfollows) (h.onCourse hfound hfollows) contents _
      (sourceOf directory accepted)
      (fun path left hsource hpaved _ origin mode content hfind =>
        h.source_inside hfound hfollows hrenamed hsource hpaved hfind)
      before accepted).mono fun outcome left hleft => ?_
    exact ⟨h.within.trans (List.prefix_append _ _) hleft, fun _ => h.add hleft (by simp [hkind])⟩

end Member

/-! ## All members -/

/-- Each member follows those before it; `before` are the first of them, the last one first. -/
def AllFollow : List Member → List Member → Prop
  | _, [] => True
  | before, member :: rest => Follows before member ∧ AllFollow (member :: before) rest

section Members

variable {base : Disk} {directory : Path} {place : Place}
  (hbase : base.find true directory = .ok (place, .directory))
include hbase

/-- Members that follow one another are unpacked inside the directory, as far as they are. -/
theorem unpackMembers_unfolds [Interpreter] {disk : Disk} {before members : List Member}
    (h : Unfolded place base before disk) (hfollow : AllFollow before members)
    (contents : Contents) :
    Ends (unpackMembers directory contents before members) disk fun _ left =>
      Within place place base left := by
  induction members generalizing disk before with
  | nil => exact ends_pure h.within
  | cons member rest ih =>
    refine ends_bind (unpackMember_unfolds hbase h hfollow.1 contents) (fun _ _ hleft => hleft.1)
      fun _ left hleft => ?_
    exact ih (hleft.2 rfl) hfollow.2

/-- An archive whose members follow one another is unpacked inside the directory, if that is empty,
however unpacking ends. -/
theorem unpack_follows [Interpreter] (hwithin : Within place place base base)
    (hbare : ∀ x entry, base.get? (place ++ x) = some entry → entry = .directory) {archive : Path}
    (hread : ∀ content, base.read archive = .ok content →
      ∃ members, content = .archive members ∧ AllFollow [] members) :
    Within place place base (unpack base archive directory).2 := by
  refine unpack_of_ends hwithin fun content hcontent => ?_
  obtain ⟨members, rfl, hfollow⟩ := hread content hcontent
  have hstart : Unfolded place base [] base :=
    ⟨hwithin, by simp, fun x entry hget hne => absurd (hbare x entry hget) hne⟩
  exact ends_bind (unpackMembers_unfolds hbase hstart hfollow _) (fun _ _ hleft => hleft)
    fun _ _ hleft => ends_pure hleft

end Members

/-! ## What is packed from a tree -/

/-- A member stands for an entry of a tree: it is a directory if the entry is one, and if it is a
second name then for one of those that are given. -/
structure StandsFor (earlier : List Place) (x : Place) (entry : Entry)
    (member : Member) : Prop where
  names : memberNames member.name = x
  folder : isFolder member = entry.isDirectory
  source : ∀ name target, member = .sameFile name target →
    ∃ y ∈ earlier, memberNames target = y

/-- The members before others stand for the entries that are listed before theirs. -/
structure Recorded (done : List (Place × Entry)) (before : List Member) : Prop where
  members : ∀ member ∈ before, ∃ x entry, (x, entry) ∈ done ∧ memberNames member.name = x ∧
    isFolder member = entry.isDirectory
  entries : ∀ x entry, (x, entry) ∈ done → ∃ member ∈ before, memberNames member.name = x ∧
    isFolder member = entry.isDirectory

/-- The names of a stored member are those that it was given. -/
theorem storedFileName_join {x : Place} (hnames : ∀ name ∈ x, IsName name) :
    storedFileName (Text.join "/" x) = Text.join "/" x := by
  unfold storedFileName
  split
  · exact storedText_of_usable (usable_join hnames)
  · exact withoutEndSlashes_join hnames

/-- One more entry has its member. -/
theorem Recorded.add {done : List (Place × Entry)} {before : List Member} (h : Recorded done before)
    {earlier : List Place} {x : Place} {entry : Entry} {member : Member}
    (hstands : StandsFor earlier x entry member) :
    Recorded (done ++ [(x, entry)]) (member :: before) := by
  refine ⟨fun other hother => ?_, fun y other hother => ?_⟩
  · rcases List.mem_cons.1 hother with rfl | hold
    · exact ⟨x, entry, by simp, hstands.names, hstands.folder⟩
    · obtain ⟨y, entry', hmem, heq⟩ := h.members other hold
      exact ⟨y, entry', List.mem_append_left _ hmem, heq⟩
  · rcases List.mem_append.1 hother with hold | hnew
    · obtain ⟨m, hm, heq⟩ := h.entries y other hold
      exact ⟨m, List.mem_cons_of_mem _ hm, heq⟩
    · cases List.mem_singleton.1 hnew
      exact ⟨member, List.mem_cons_self, hstands.names, hstands.folder⟩

/-- What an entry is packed as, behind places that have been packed: a second name for the first of
them that shares its file, or what it is. -/
def packedAs (tree : Disk) (source : Place) (earlier : List Place) (x : Place) (entry : Entry) :
    Member :=
  match firstName tree earlier (source ++ x) with
  | some first => .sameFile (Text.join "/" x) (Text.join "/" (first.drop source.length))
  | none => memberOf x entry

/-- The entries are packed one after the other. -/
theorem membersFrom_cons (tree : Disk) (source : Place) (earlier : List Place) (x : Place)
    (entry : Entry) (rest : List (Place × Entry)) :
    membersFrom tree source earlier ((x, entry) :: rest) =
      packedAs tree source earlier x entry ::
        membersFrom tree source (earlier ++ [source ++ x]) rest := rfl

section Tree

variable {tree : Disk} {source : Place} (horderly : tree.Orderly)
include horderly

/-- The places of the entries that are listed before one are others than its own. -/
theorem notMem_before {done rest : List (Place × Entry)} {x : Place} {entry : Entry}
    (hlist : tree.below source = done ++ (x, entry) :: rest) : x ∉ done.map Prod.fst := by
  have hnodup := horderly.nodup_below source
  rw [hlist, List.map_append, List.map_cons] at hnodup
  exact fun hmem => (List.nodup_append.1 hnodup).2.2 x hmem x List.mem_cons_self rfl

variable (hwf : tree.WellFormed)
  (hnames : ∀ x entry, tree.get? (source ++ x) = some entry → ∀ name ∈ x, IsName name)
include hwf hnames

/-- What is packed for an entry stands for it. -/
theorem standsFor_stored {done rest : List (Place × Entry)} {x : Place} {entry : Entry}
    (hlist : tree.below source = done ++ (x, entry) :: rest) :
    StandsFor (done.map Prod.fst) x entry
      (stored (packedAs tree source (done.map fun y => source ++ y.1) x entry)) := by
  have hlisted : ∀ y e, (y, e) ∈ tree.below source → ∀ name ∈ y, IsName name :=
    fun y e hmem => hnames y e (horderly.mem_below.1 hmem).2
  have hentry : (x, entry) ∈ tree.below source := by rw [hlist]; simp
  have hgood := hlisted x entry hentry
  unfold packedAs
  rcases hfirst : firstName tree (done.map fun y => source ++ y.1) (source ++ x) with _ | first
  · dsimp only
    cases entry with
    | directory =>
      refine ⟨?_, rfl, by rintro _ _ ⟨⟩⟩
      show memberNames (Header.withoutEndSlashes (storedText (Text.join "/" x))) = x
      rw [storedText_of_usable (usable_join hgood), withoutEndSlashes_join hgood,
        memberNames_join hgood]
    | file mode content =>
      refine ⟨?_, rfl, by rintro _ _ ⟨⟩⟩
      show memberNames (storedFileName (Text.join "/" x)) = x
      rw [storedFileName_join hgood, memberNames_join hgood]
    | link target =>
      refine ⟨?_, rfl, by rintro _ _ ⟨⟩⟩
      show memberNames (storedFileName (Text.join "/" x)) = x
      rw [storedFileName_join hgood, memberNames_join hgood]
  · -- Only files share, and the entry is not among those before it.
    obtain ⟨⟨y, e⟩, hmem, rfl⟩ := List.mem_map.1 (List.mem_of_find?_eq_some hfirst)
    have hshares : source ++ y ∈ tree.sharers (source ++ x) :=
      List.contains_iff_mem.1 (List.find?_some hfirst)
    have hother : y ≠ x := fun heq =>
      notMem_before horderly hlist (heq ▸ List.mem_map.2 ⟨_, hmem, rfl⟩)
    have hy := hlisted y e (by rw [hlist]; exact List.mem_append_left _ hmem)
    dsimp only
    rw [List.drop_left]
    refine ⟨?_, ?_, ?_⟩
    · show memberNames (storedFileName (Text.join "/" x)) = x
      rw [storedFileName_join hgood, memberNames_join hgood]
    · show false = entry.isDirectory
      cases entry with
      | directory =>
        rw [hwf.sharers_of_no_file (by simp [(horderly.mem_below.1 hentry).2]),
          List.mem_singleton] at hshares
        exact absurd (List.append_cancel_left hshares) hother
      | file => rfl
      | link => rfl
    · rintro _ _ ⟨⟩
      refine ⟨y, List.mem_map.2 ⟨_, hmem, rfl⟩, ?_⟩
      rw [storedText_of_usable (usable_join hy), memberNames_join hy]

omit hnames in
/-- What is above an entry is a directory, and listed before it. -/
theorem directory_listed {done rest : List (Place × Entry)} {x : Place} {entry : Entry}
    (hlist : tree.below source = done ++ (x, entry) :: rest) {y : Place} (hy : y <+: x)
    (hne : y ≠ x) (hsome : y ≠ []) : (y, Entry.directory) ∈ done := by
  have hentry : (x, entry) ∈ tree.below source := by rw [hlist]; simp
  have hdirectory : tree.get? (source ++ y) = some .directory := by
    obtain ⟨-, hget⟩ := horderly.mem_below.1 hentry
    obtain ⟨more, rfl⟩ := hy
    by_contra hnot
    rw [← List.append_assoc, hwf.below hnot (by simpa using hne)] at hget
    cases hget
  exact Disk.mem_of_above hlist (horderly.mem_below.2 ⟨hsome, hdirectory⟩) hy hne

omit hnames in
/-- So it is also for what is above an entry before it. -/
theorem directory_listed_of_mem {done rest : List (Place × Entry)}
    (hlist : tree.below source = done ++ rest) {x y : Place} {entry : Entry}
    (hmem : (x, entry) ∈ done) (hy : y <+: x) (hne : y ≠ x) (hsome : y ≠ []) :
    (y, Entry.directory) ∈ done := by
  obtain ⟨front, back, rfl⟩ := List.append_of_mem hmem
  rw [List.append_assoc, List.cons_append] at hlist
  exact List.mem_append_left _ (directory_listed horderly hwf hlist hy hne hsome)

omit hnames in
/-- An entry that is no directory is not above one that is listed after it, nor below it. -/
theorem apart_of_listed {done rest : List (Place × Entry)} {x y : Place} {entry e : Entry}
    (hlist : tree.below source = done ++ (x, entry) :: rest) (hmem : (y, e) ∈ done)
    (hfile : e ≠ .directory) : ¬ y <+: x ∧ ¬ x <+: y := by
  have hne : y ≠ x := fun heq =>
    notMem_before horderly hlist (heq ▸ List.mem_map.2 ⟨_, hmem, rfl⟩)
  have hlisted : ∀ e', (y, e') ∈ done → y ≠ [] ∧ tree.get? (source ++ y) = some e' :=
    fun e' hin => horderly.mem_below.1 (by rw [hlist]; exact List.mem_append_left _ hin)
  have hentry : (x, entry) ∈ tree.below source := by rw [hlist]; simp
  refine ⟨fun habove => ?_, fun hbelow => ?_⟩
  · have hin := directory_listed horderly hwf hlist habove hne (hlisted e hmem).1
    have hget := (hlisted e hmem).2
    rw [(hlisted _ hin).2] at hget
    exact hfile (Option.some.inj hget).symm
  · have hin := directory_listed_of_mem horderly hwf hlist hmem hbelow hne.symm
      (horderly.mem_below.1 hentry).1
    exact notMem_before horderly hlist (List.mem_map.2 ⟨_, hin, rfl⟩)

/-- A member that stands for an entry follows those for the entries that are listed before it. -/
theorem follows_of_standsFor {done rest : List (Place × Entry)} {x : Place} {entry : Entry}
    (hlist : tree.below source = done ++ (x, entry) :: rest) {before : List Member}
    (hrecorded : Recorded done before) {member : Member}
    (hstands : StandsFor (done.map Prod.fst) x entry member) : Follows before member := by
  have hlisted : ∀ y e, (y, e) ∈ tree.below source → y ≠ [] ∧ ∀ name ∈ y, IsName name := by
    intro y e hmem
    obtain ⟨hsome, hget⟩ := horderly.mem_below.1 hmem
    exact ⟨hsome, hnames y e hget⟩
  have hfolder : ∀ y, (y, Entry.directory) ∈ done →
      ∃ other ∈ before, isFolder other = true ∧ memberNames other.name = y := by
    intro y hmem
    obtain ⟨other, hother, heq, hkind⟩ := hrecorded.entries y .directory hmem
    exact ⟨other, hother, hkind, heq⟩
  have hentry : (x, entry) ∈ tree.below source := by rw [hlist]; simp
  refine ⟨?_, ?_, fun y hy hne hsome => ?_, fun other hother hfile => ?_, fun name target heq => ?_⟩
  · rw [hstands.names]
    exact (hlisted x entry hentry).1
  · rw [hstands.names]
    exact (hlisted x entry hentry).2
  · rw [hstands.names] at hy hne
    exact hfolder y (directory_listed horderly hwf hlist hy hne hsome)
  · obtain ⟨y, e, hmem, hy, hkind⟩ := hrecorded.members other hother
    rw [hstands.names, hy]
    refine apart_of_listed horderly hwf hlist hmem ?_
    rintro rfl
    rw [hfile] at hkind
    cases hkind
  · obtain ⟨y, hy, hsame⟩ := hstands.source name target heq
    obtain ⟨⟨_, e⟩, hmem, rfl⟩ := List.mem_map.1 hy
    rw [hsame]
    obtain ⟨hsome, hgood⟩ := hlisted _ e (by rw [hlist]; exact List.mem_append_left _ hmem)
    exact ⟨hsome, hgood, fun z hz hne hnil =>
      hfolder z (directory_listed_of_mem horderly hwf hlist hmem hz hne hnil)⟩

/-- The members that are packed from a tree follow one another. -/
theorem allFollow_membersFrom {done rest : List (Place × Entry)}
    (hlist : tree.below source = done ++ rest) {before : List Member}
    (hrecorded : Recorded done before) :
    AllFollow before
      ((membersFrom tree source (done.map fun y => source ++ y.1) rest).map stored) := by
  induction rest generalizing done before with
  | nil => trivial
  | cons head rest ih =>
    obtain ⟨x, entry⟩ := head
    have hstands := standsFor_stored horderly hwf hnames hlist
    rw [membersFrom_cons, List.map_cons]
    refine ⟨follows_of_standsFor horderly hwf hnames hlist hrecorded hstands, ?_⟩
    have hsplit : tree.below source = (done ++ [(x, entry)]) ++ rest := by
      rw [hlist, List.append_assoc]
      rfl
    have hnext := ih hsplit (hrecorded.add hstands)
    rwa [List.map_append, List.map_singleton] at hnext

/-- An archive of a tree is unpacked inside the directory, if that is empty, however unpacking ends.
-/
theorem unpackTree_within [Interpreter] {base : Disk} {directory : Path} {place : Place}
    (hwithin : Within place place base base)
    (hbase : base.find true directory = .ok (place, .directory))
    (hbare : ∀ x entry, base.get? (place ++ x) = some entry → entry = .directory) {archive : Path}
    (hread : ∀ content, base.read archive = .ok content →
      content = .archive ((membersOf tree source).map stored)) :
    Within place place base (unpack base archive directory).2 := by
  have hfirst : Recorded [] [] := ⟨by simp, by simp⟩
  exact unpack_follows hbase hwithin hbare fun content hcontent => ⟨_, hread content hcontent,
    allFollow_membersFrom horderly hwf hnames (List.nil_append _).symm hfirst⟩

end Tree

end ProviderKit.Archive
