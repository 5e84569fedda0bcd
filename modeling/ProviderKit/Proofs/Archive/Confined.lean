import ProviderKit.Proofs.Archive.Filling
import ProviderKit.Proofs.Disk.Confinement

/-!
# Where a member is unpacked

A member whose name stays inside a directory is unpacked inside it (`unpackAt_within`): every
request of the work on it is made at a path that the name runs through, and as long as names stay
inside, a request changes nothing elsewhere (`Within`). The proof follows the work on a member step
by step, with one lemma for each of its forms that says how it ends, returned or stopped.
-/

namespace ProviderKit.Archive

open Disk (IsName IsPart Within Stays readNames linkLimit)

/-! ## How work ends -/

namespace Unpack

variable {α β : Type} {disk : Disk} {post : Except Stop α → Disk → Prop}

/-- Work on a disk ends so that the condition is true of its outcome and of the disk that it leaves.
-/
def Ends (work : Unpack α) (disk : Disk) (post : Except Stop α → Disk → Prop) : Prop :=
  post (work.perform disk).1 (work.perform disk).2

/-- Work ends so that more is true if less is asked. -/
theorem Ends.mono {work : Unpack α} {post' : Except Stop α → Disk → Prop}
    (h : Ends work disk post) (himp : ∀ outcome left, post outcome left → post' outcome left) :
    Ends work disk post' := himp _ _ h

/-- Work that looks at the disk ends as it does on what it sees. -/
theorem ends_get {f : Disk → Unpack α} (h : Ends (f disk) disk post) :
    Ends ((get : Unpack Disk) >>= f) disk post := h

/-- Work that is done ends with the disk as it is. -/
theorem ends_pure {v : α} (h : post (.ok v) disk) : Ends (pure v) disk post := h

/-- Work that stops ends with the disk as it is. -/
theorem ends_throw {stop : Stop} (h : post (.error stop) disk) :
    Ends (throw stop : Unpack α) disk post := h

/-- A sequence ends as its second part does, or as the first one stops. -/
theorem ends_bind {x : Unpack α} {f : α → Unpack β} {post : Except Stop β → Disk → Prop}
    {m : Except Stop α → Disk → Prop} (h : Ends x disk m)
    (hstop : ∀ stop left, m (.error stop) left → post (.error stop) left)
    (hnext : ∀ v left, m (.ok v) left → Ends (f v) left post) : Ends (x >>= f) disk post := by
  unfold Ends at h ⊢
  rw [perform_bind]
  rcases hx : x.perform disk with ⟨stop | v, left⟩
  all_goals rw [hx] at h
  · exact hstop stop left h
  · exact hnext v left h

/-- Work that is caught ends as it does, or as what is done about its stop. -/
theorem ends_tryCatch {x : Unpack α} {handle : Stop → Unpack α}
    {m : Except Stop α → Disk → Prop} (h : Ends x disk m)
    (hdone : ∀ v left, m (.ok v) left → post (.ok v) left)
    (hcaught : ∀ stop left, m (.error stop) left → Ends (handle stop) left post) :
    Ends (tryCatch x handle) disk post := by
  unfold Ends at h ⊢
  rw [perform_tryCatch]
  rcases hx : x.perform disk with ⟨stop | v, left⟩
  all_goals rw [hx] at h
  · exact hcaught stop left h
  · exact hdone v left h

/-- A request ends with the disk that it gives, or with the disk as it was. -/
theorem ends_request {f : Disk → Except Disk.Fault Disk} {post : Except Stop Unit → Disk → Prop}
    (hrefused : ∀ fault, f disk = .error fault → post (.error (.failure (.disk fault))) disk)
    (hdone : ∀ left, f disk = .ok left → post (.ok ()) left) : Ends (request f) disk post := by
  unfold Ends
  rw [request, perform_get]
  rcases hf : f disk with fault | left
  · exact hrefused fault hf
  · exact hdone left hf

end Unpack

open Unpack

/-- The second disk has more directories than the first one, and is the same otherwise. -/
def Paved (disk left : Disk) : Prop :=
  ∀ p, left.get? p = disk.get? p ∨ (disk.get? p = none ∧ left.get? p = some .directory)

/-- Paving goes on. -/
theorem Paved.trans {disk middle left : Disk} (h : Paved disk middle) (h' : Paved middle left) :
    Paved disk left := by
  intro p
  rcases h p with hsame | ⟨hfree, hnew⟩
  · rw [← hsame]
    exact h' p
  · rcases h' p with hsame | ⟨hnone, -⟩
    · exact .inr ⟨hfree, hsame.trans hnew⟩
    · rw [hnew] at hnone
      cases hnone

/-- What was there is there still, with a directory where there was one. -/
theorem Paved.extended {disk left : Disk} (h : Paved disk left) : Disk.Extended disk left := by
  intro p entry hp
  rcases h p with hkept | ⟨hfree, -⟩
  · exact ⟨entry, hkept.trans hp, rfl⟩
  · rw [hfree] at hp
    cases hp

/-- Names lead from a directory of a base towards a place inside it, at and below which the base has
only directories; they are parts of a path and do not go up. -/
structure Heading (place top : Place) (directory : Path) (names : List Text) (base : Disk) :
    Prop where
  inside : place <+: top
  found : base.find true directory = .ok (place, .directory)
  bare : ∀ q entry, top <+: q → base.get? q = some entry → entry = .directory
  parts : ∀ name ∈ names, name ≠ [] ∧ CodePoint.char '/' ∉ name
  down : Text.ofString ".." ∉ names.map Utf8.canonical

/-- The disk has changed only at or below the place, and the names still stay there. -/
structure OnCourse (place top : Place) (directory : Path) (names : List Text) (base disk : Disk) :
    Prop where
  within : Within place top base disk
  stays : Stays top (readNames directory) (names.map Utf8.canonical) disk

variable {place top : Place} {directory : Path} {names front : List Text} {base disk : Disk}

/-- A path that goes on from another one is read name by name. -/
theorem readNames_append (directory : Path) (names : List Text) :
    readNames ⟨directory.root, directory.names ++ names⟩ =
      readNames directory ++ names.map Utf8.canonical := List.map_append

namespace OnCourse

/-- The names that lead a part of the way are read as a part of what is read. -/
theorem prefix_read (hfront : front <+: names) :
    front.map Utf8.canonical <+: names.map Utf8.canonical := by
  obtain ⟨rest, rfl⟩ := hfront
  exact ⟨rest.map Utf8.canonical, List.map_append.symm⟩

variable (hheading : Heading place top directory names base)
  (h : OnCourse place top directory names base disk)
include hheading h

/-- The names lead to a free place only inside, under a name in a directory. -/
theorem new_place (hfront : front <+: names) {through : Bool} {q : Place}
    (hlocate : disk.locate through ⟨directory.root, directory.names ++ front⟩ = .ok q)
    (hfree : disk.get? q = none) :
    ∃ parent name, q = parent ++ [name] ∧ disk.get? parent = some .directory ∧ IsName name ∧
      top <+: parent ++ [name] := by
  obtain ⟨hgivable, hwalk⟩ := Disk.walk_of_locate hlocate
  rw [readNames_append] at hwalk
  have htop : top <+: q := h.stays.inside (prefix_read hfront) hwalk fun entry hentry => by
    simp [hfree] at hentry
  have hparts : ∀ name ∈ front.map Utf8.canonical, IsPart name := by
    intro name hname
    obtain ⟨raw, hraw, rfl⟩ := List.mem_map.1 hname
    obtain ⟨hnonempty, hslashless⟩ := hheading.parts raw (hfront.subset hraw)
    exact Disk.isPart_canonical
      (Disk.usable_of_isGivable hgivable raw (List.mem_append_right _ hraw)) hnonempty hslashless
  obtain ⟨hthere, hdirectory⟩ := Disk.find_eq_ok.1 (h.within.enters hheading.found)
  have henters : Disk.Enters disk directory place := ⟨(Disk.walk_of_locate hthere).2, hdirectory⟩
  have hwf := h.within.regular.toWellFormed
  by_cases hnil : front = []
  · -- The directory itself is not free.
    subst hnil
    rw [List.map_nil, List.append_nil] at hwalk
    have hfollowed : Disk.walk disk true linkLimit [] (readNames directory) = .ok q := by
      cases through with
      | true => exact hwalk
      | false => exact Disk.walk_through (by simp [hfree]) hwalk
    rw [henters.arrives] at hfollowed
    obtain rfl := Except.ok.inj hfollowed
    rw [hdirectory] at hfree
    cases hfree
  obtain ⟨left, hgoes⟩ := henters.goes
  rw [hgoes _ _ (by simpa using hnil)] at hwalk
  obtain ⟨parent, name, rfl, hparent, hname⟩ :=
    Disk.isName_of_walk hwf h.within.regular.targets hparts hdirectory hwalk hfree
  exact ⟨parent, name, rfl, hparent, hname, htop⟩

/-- A directory is made on the way. -/
theorem makeDirectory (hfront : front <+: names) {made : Disk}
    (hmade : disk.makeDirectory ⟨directory.root, directory.names ++ front⟩ = .ok made) :
    OnCourse place top directory names base made ∧ Paved disk made := by
  obtain ⟨q, hlocate, hfree, rfl⟩ := Disk.makeDirectory_ok hmade
  obtain ⟨parent, name, rfl, hparent, hname, htop⟩ := h.new_place hheading hfront hlocate hfree
  have hwalk := (Disk.walk_of_locate hlocate).2
  rw [readNames_append] at hwalk
  refine ⟨⟨h.within.put hheading.inside hparent hfree htop hname (fun _ => Entry.noConfusion),
    h.stays.put h.within.regular.toWellFormed hheading.down (prefix_read hfront) hwalk hfree⟩, ?_⟩
  intro p
  by_cases heq : p = parent ++ [name]
  · subst heq
    exact .inr ⟨hfree, Disk.get?_put_self (by simp) _ _⟩
  · exact .inl (Disk.get?_put_of_ne heq _ _)

/-- The directory is there. -/
theorem isThere_directory : isThere disk true directory = true := by
  rw [isThere, h.within.enters hheading.found]

/-- The directory above it is there. -/
theorem isThere_parent : isThere disk true directory.parent = true := by
  have hthere := h.within.enters hheading.found
  obtain ⟨hlocate, -⟩ := Disk.find_eq_ok.1 hthere
  rcases List.eq_nil_or_concat directory.names with hnil | ⟨init, last, hconcat⟩
  · have hself : directory.parent = directory := by
      rw [Path.parent, hnil, List.dropLast_nil, ← hnil]
    rw [hself, isThere, hthere]
  · have hchild : directory = directory.parent.child last := by
      rw [Path.child, Path.parent, hconcat, List.concat_eq_append, List.dropLast_concat,
        ← List.concat_eq_append, ← hconcat]
    have hgivable := Disk.isGivable_parent (Disk.walk_of_locate hlocate).1
    rw [hchild] at hlocate
    obtain ⟨q, henters⟩ := Disk.enters_of_child hlocate
    have hfound := Disk.find_eq_ok.2 ⟨Disk.locate_of_walk hgivable henters.arrives,
      henters.directory⟩
    rw [isThere, hfound]

end OnCourse

/-! ## Missing directories -/

section Steps

variable (hheading : Heading place top directory names base)
include hheading

/-- The directories that are made leave the names on their course. -/
theorem ensureDirectory_paves (h : OnCourse place top directory names base disk)
    (hfront : front <+: names) :
    Ends (ensureDirectory ⟨directory.root, directory.names ++ front⟩) disk fun _ left =>
      OnCourse place top directory names base left ∧ Paved disk left := by
  have hsame : OnCourse place top directory names base disk ∧ Paved disk disk :=
    ⟨h, fun _ => .inl rfl⟩
  refine ends_get ?_
  rcases hmade : disk.makeDirectory ⟨directory.root, directory.names ++ front⟩ with fault | made
  · refine ends_get ?_
    split
    · exact ends_throw hsame
    · exact ends_pure hsame
  · exact h.makeDirectory hheading hfront hmade

/-- Missing directories are made behind the directory only. -/
theorem makeUpper_paves (levels : Nat) {disk : Disk} {front : List Text}
    (h : OnCourse place top directory names base disk)
    (hfront : front <+: names) (hsome : front ≠ []) :
    Ends (makeUpper levels ⟨directory.root, directory.names ++ front⟩) disk fun _ left =>
      OnCourse place top directory names base left ∧ Paved disk left := by
  have hparent : (⟨directory.root, directory.names ++ front⟩ : Path).parent =
      ⟨directory.root, directory.names ++ front.dropLast⟩ := by
    rw [Path.parent, List.dropLast_append_of_ne_nil hsome]
  rw [makeUpper.eq_def]
  refine ends_get ?_
  rw [hparent]
  split
  next hmissing =>
    have hlast : ∀ left, OnCourse place top directory names base left ∧ Paved disk left →
        Ends (do
          if (directory.names ++ front).getLast? = some (Text.ofString ".") then return ()
          ensureDirectory ⟨directory.root, directory.names ++ front⟩) left fun _ last =>
            OnCourse place top directory names base last ∧ Paved disk last := by
      intro left hleft
      split
      · exact ends_pure hleft
      · refine (ensureDirectory_paves hheading hleft.1 hfront).mono fun _ last hlast => ?_
        exact ⟨hlast.1, hleft.2.trans hlast.2⟩
    cases levels with
    | zero =>
      exact ends_bind (m := fun _ left => OnCourse place top directory names base left ∧
        Paved disk left) (ends_throw ⟨h, fun _ => .inl rfl⟩) (fun _ _ hleft => hleft)
        fun _ left hleft => hlast left hleft
    | succ levels =>
      -- The directory is there, so what is missing above lies behind it.
      have hmore : front.dropLast ≠ [] := by
        intro hnil
        rw [hnil, List.append_nil, h.isThere_directory hheading] at hmissing
        simp at hmissing
      have hupper := makeUpper_paves levels h ((List.dropLast_prefix _).trans hfront) hmore
      refine ends_bind (m := fun _ left => OnCourse place top directory names base left ∧
        Paved disk left) ?_ (fun _ _ hleft => hleft) fun _ left hleft => hlast left hleft
      refine ends_tryCatch hupper (fun _ _ hleft => hleft) fun stop left hleft => ?_
      split
      · exact ends_pure hleft
      · exact ends_throw hleft
  · exact ensureDirectory_paves hheading h hfront

/-- The directory above a member is made behind the directory only. -/
theorem makeParent_paves [Interpreter] (h : OnCourse place top directory names base disk) :
    Ends (makeParent ⟨directory.root, directory.names ++ names⟩) disk fun _ left =>
      OnCourse place top directory names base left ∧ Paved disk left := by
  have hsame : OnCourse place top directory names base disk ∧ Paved disk disk :=
    ⟨h, fun _ => .inl rfl⟩
  refine ends_get ?_
  split
  next hmissing =>
    by_cases hnil : names = []
    · have hparent : (⟨directory.root, directory.names ++ names⟩ : Path).parent =
          directory.parent := by
        rw [hnil, List.append_nil]
      rw [hparent, h.isThere_parent hheading] at hmissing
      cases hmissing
    have hparent : (⟨directory.root, directory.names ++ names⟩ : Path).parent =
        ⟨directory.root, directory.names ++ names.dropLast⟩ := by
      rw [Path.parent, List.dropLast_append_of_ne_nil hnil]
    rw [hparent] at hmissing ⊢
    have hmore : names.dropLast ≠ [] := by
      intro hnil
      rw [hnil, List.append_nil, h.isThere_directory hheading] at hmissing
      cases hmissing
    exact makeUpper_paves hheading _ h (List.dropLast_prefix _) hmore
  · exact ends_pure hsame

/-! ## The kinds of members -/

/-- A directory is unpacked inside. -/
theorem unpackDirectory_within (h : OnCourse place top directory names base disk) :
    Ends (unpackDirectory ⟨directory.root, directory.names ++ names⟩) disk fun _ left =>
      Within place top base left := by
  refine ends_get ?_
  rcases hmade : disk.makeDirectory ⟨directory.root, directory.names ++ names⟩ with fault | made
  · refine ends_get ?_
    split
    · exact ends_throw h.within
    · exact ends_pure h.within
  · exact (h.makeDirectory hheading (List.prefix_refl _) hmade).1.within

/-- A file is written inside. -/
theorem write_within (h : OnCourse place top directory names base disk) {content : Content}
    {left : Disk}
    (hwrite : disk.write ⟨directory.root, directory.names ++ names⟩ content = .ok left) :
    Within place top base left ∧ ∃ q mode,
      left.locate true ⟨directory.root, directory.names ++ names⟩ = .ok q ∧ top <+: q ∧
        left.get? q = some (.file mode content) := by
  have hwf := h.within.regular.toWellFormed
  obtain ⟨q, hlocate, hwritten⟩ := Disk.write_ok hwf hwrite
  obtain ⟨mode, hfile⟩ := hwritten.shown q (Disk.mem_sharers_self _ _)
  have hlocate' := locate_of_written hwf hlocate hwritten
  obtain ⟨r, hr, hcases⟩ := Disk.write_cases hwrite
  rw [hlocate] at hr
  obtain rfl := Except.ok.inj hr
  rcases hcases with ⟨hfree, rfl⟩ | ⟨mode', old, hold, rfl⟩
  · obtain ⟨parent, name, rfl, hparent, hname, htop⟩ :=
      h.new_place hheading (List.prefix_refl _) hlocate hfree
    exact ⟨h.within.put hheading.inside hparent hfree htop hname (fun _ => Entry.noConfusion),
      _, mode, hlocate', htop, hfile⟩
  · have hwalk := (Disk.walk_of_locate hlocate).2
    rw [readNames_append] at hwalk
    have htop : top <+: q := h.stays.inside (List.prefix_refl _) hwalk fun entry hentry => by
      rw [hold] at hentry
      rw [← Option.some.inj hentry]
      rfl
    exact ⟨h.within.rewrite hheading.inside htop hold _ _, q, mode, hlocate', htop, hfile⟩

/-- A file is unpacked inside. -/
theorem unpackFile_within (h : OnCourse place top directory names base disk) (mode : Mode)
    (content : Content) :
    Ends (unpackFile ⟨directory.root, directory.names ++ names⟩ mode content) disk
      fun _ left => Within place top base left := by
  refine ends_bind (m := fun outcome left => Within place top base left ∧
    (outcome = .ok () → ∃ q mode,
      left.locate true ⟨directory.root, directory.names ++ names⟩ = .ok q ∧ top <+: q ∧
        left.get? q = some (.file mode content))) ?_ (fun _ _ hleft => hleft.1)
    fun _ left hleft => ?_
  · refine ends_request (fun _ _ => ⟨h.within, by rintro ⟨⟩⟩) fun left hwrite => ?_
    obtain ⟨hwithin, hplace⟩ := write_within hheading h hwrite
    exact ⟨hwithin, fun _ => hplace⟩
  · obtain ⟨hwithin, hplace⟩ := hleft
    obtain ⟨q, old, hlocate, htop, hfile⟩ := hplace rfl
    refine ends_get ?_
    rw [hlocate]
    exact hwithin.rewrite hheading.inside htop hfile mode content

/-- What has been there is removed inside. -/
theorem unlink_onCourse (h : OnCourse place top directory names base disk) {left : Disk}
    (hunlink : disk.unlink ⟨directory.root, directory.names ++ names⟩ = .ok left) :
    OnCourse place top directory names base left := by
  obtain ⟨q, entry, hfind, hentry, rfl⟩ := Disk.unlink_ok hunlink
  obtain ⟨hlocate, hget⟩ := Disk.find_eq_ok.1 hfind
  have hwalk := (Disk.walk_of_locate hlocate).2
  rw [readNames_append] at hwalk
  have htop := h.stays.whole q entry hwalk hget hentry
  exact ⟨h.within.erase hheading.inside hheading.bare htop hget hentry, h.stays.erase htop⟩

/-- A link is unpacked inside; where the disk refuses it the names are still on their course. -/
theorem unpackLink_within (h : OnCourse place top directory names base disk) (target : Text) :
    Ends (unpackLink ⟨directory.root, directory.names ++ names⟩ target) disk fun outcome left =>
      Within place top base left ∧
        (outcome ≠ .ok () → OnCourse place top directory names base left) := by
  have hmake : ∀ disk, OnCourse place top directory names base disk →
      Ends (request (·.makeLink target ⟨directory.root, directory.names ++ names⟩)) disk
        fun outcome left => Within place top base left ∧
          (outcome ≠ .ok () → OnCourse place top directory names base left) := by
    intro disk h
    refine ends_request (fun _ _ => ⟨h.within, fun _ => h⟩) fun left hmade => ?_
    obtain ⟨husable, q, hlocate, hfree, rfl⟩ := Disk.makeLink_ok hmade
    obtain ⟨parent, name, rfl, hparent, hname, htop⟩ :=
      h.new_place hheading (List.prefix_refl _) hlocate hfree
    refine ⟨h.within.put hheading.inside hparent hfree htop hname ?_, fun hnot => absurd rfl hnot⟩
    intro target' heq
    obtain rfl := Entry.link.inj heq
    exact Disk.isStored_canonical husable
  refine ends_get ?_
  dsimp only
  split
  · refine ends_bind (m := fun _ left => OnCourse place top directory names base left) ?_
      (fun _ _ hleft => ⟨hleft.within, fun _ => hleft⟩) fun _ left hleft => hmake left hleft
    exact ends_request (fun _ _ => h) fun left hunlink => unlink_onCourse hheading h hunlink
  · exact hmake disk h

/-- A second name of a file of the directory is given inside; where the disk refuses it the names
are still on their course. -/
theorem makeSecondName_within (h : OnCourse place top directory names base disk) {source : Path}
    (hsource : ∀ origin mode content,
      disk.find false source = .ok (origin, .file mode content) → place <+: origin) :
    Ends (request (·.makeSecondName source ⟨directory.root, directory.names ++ names⟩)) disk
      fun outcome left => Within place top base left ∧
        (outcome ≠ .ok () → OnCourse place top directory names base left) := by
  refine ends_request (fun _ _ => ⟨h.within, fun _ => h⟩) fun left hmade => ?_
  refine ⟨?_, fun hnot => absurd rfl hnot⟩
  obtain ⟨origin, q, hlocate, hfree, hcases⟩ := Disk.makeSecondName_ok hmade
  obtain ⟨parent, name, rfl, hparent, hname, htop⟩ :=
    h.new_place hheading (List.prefix_refl _) hlocate hfree
  rcases hcases with ⟨target, hfind, rfl⟩ | ⟨mode, content, hfind, rfl⟩
  · refine h.within.put hheading.inside hparent hfree htop hname fun target' heq => ?_
    obtain rfl := Entry.link.inj heq
    exact h.within.regular.targets _ _ (Disk.find_eq_ok.1 hfind).2
  · exact h.within.share hheading.inside hparent hfree htop hname (hsource _ _ _ hfind)
      (Disk.find_eq_ok.1 hfind).2

omit hheading in
/-- A link, or what is unpacked instead of it, is unpacked inside. -/
theorem unpackOr_within {instead body : Unpack Unit}
    (hbody : Ends body disk fun outcome left => Within place top base left ∧
      (outcome ≠ .ok () → OnCourse place top directory names base left))
    (hinstead : ∀ left, OnCourse place top directory names base left →
      Ends instead left fun _ last => Within place top base last) :
    Ends (unpackOr instead body) disk fun _ left => Within place top base left := by
  refine ends_tryCatch hbody (fun _ _ hleft => hleft.1) fun stop left hleft => ?_
  have hcourse := hleft.2 (by rintro ⟨⟩)
  split
  · exact hinstead left hcourse
  · exact ends_throw hcourse.within

omit hheading in
/-- What a link names in the archive is looked up without the disk. -/
theorem named_ends (contents : Contents) (before : List Member) (member : Member) (disk : Disk) :
    Ends (named contents before member) disk fun _ left => left = disk := by
  unfold named
  cases contents.fault with
  | some fault => exact ends_throw rfl
  | none => cases member <;> exact ends_pure rfl

/-! ## One member -/

/-- A member is unpacked inside, if what may stand in for it is, and if what it is a second name of
is in the directory when the directories above it have been made. -/
theorem unpackWith_within [Interpreter] (h : OnCourse place top directory names base disk)
    (contents : Contents) {instead : Unpack Unit}
    (hinstead : ∀ left, OnCourse place top directory names base left →
      Ends instead left fun _ last => Within place top base last) (source : Option Path)
    (hsource : ∀ path left, source = some path → Paved disk left → left.Regular →
      ∀ origin mode content,
        left.find false path = .ok (origin, .file mode content) → place <+: origin)
    (before : List Member) (member : Member) :
    Ends (unpackWith contents instead ⟨directory.root, directory.names ++ names⟩ source before
      member) disk fun _ left => Within place top base left := by
  refine ends_bind (makeParent_paves hheading h) (fun _ _ hleft => hleft.1.within)
    fun _ left hleft => ?_
  obtain ⟨hcourse, hpaved⟩ := hleft
  have htaken : Ends (do
      if isThere (← get) false ⟨directory.root, directory.names ++ names⟩ then
        Unpack.fail (.disk (.refused .exists ⟨directory.root, directory.names ++ names⟩))) left
      fun _ last => Within place top base last := by
    refine ends_get ?_
    split
    · exact ends_throw hcourse.within
    · exact ends_pure hcourse.within
  cases member with
  | directory => exact unpackDirectory_within hheading hcourse
  | file _ mode content => exact unpackFile_within hheading hcourse mode content
  | unknown _ content => exact unpackFile_within hheading hcourse .usual content
  | pipe => exact htaken
  | device => exact htaken
  | link _ target => exact unpackOr_within (unpackLink_within hheading hcourse target) hinstead
  | sameFile name target =>
    cases source with
    | none => exact hinstead left hcourse
    | some path =>
      refine ends_get ?_
      split
      · refine unpackOr_within (makeSecondName_within hheading hcourse ?_) hinstead
        exact hsource path left rfl hpaved hcourse.within.regular
      · refine ends_bind (named_ends contents before _ left) (fun _ last hlast => ?_)
          fun found last hlast => ?_
        · exact hlast ▸ hcourse.within
        obtain rfl := hlast
        split
        · exact ends_throw hcourse.within
        · exact hinstead last hcourse

/-- A member is unpacked inside through any number of links that are replaced by what they name. -/
theorem unpackAt_within [Interpreter] (h : OnCourse place top directory names base disk)
    (contents : Contents) (levels : Nat) (source : Option Path)
    (hsource : ∀ path left, source = some path → Paved disk left → left.Regular →
      ∀ origin mode content,
        left.find false path = .ok (origin, .file mode content) → place <+: origin)
    (before : List Member) (member : Member) :
    Ends (unpackAt contents levels ⟨directory.root, directory.names ++ names⟩ source before member)
      disk fun _ left => Within place top base left := by
  have hnamed : ∀ (unpack : List Member → Member → Unpack Unit) (before : List Member)
      (member : Member), (∀ before member left, OnCourse place top directory names base left →
        Ends (unpack before member) left fun _ last => Within place top base last) →
      ∀ left, OnCourse place top directory names base left →
        Ends (unpackNamed contents unpack before member) left fun _ last =>
          Within place top base last := by
    intro unpack before member hunpack left h
    refine ends_bind (named_ends contents before member left) (fun _ _ hlast => hlast ▸ h.within)
      fun found last hlast => ?_
    obtain rfl := hlast
    cases found with
    | none => exact ends_throw h.within
    | some found => exact hunpack found.2 found.1 last h
  -- What is unpacked in place of a link has no source of its own.
  induction levels generalizing disk source before member with
  | zero =>
    refine unpackWith_within hheading h contents (hnamed _ before member ?_) source hsource before
      member
    exact fun _ _ left hleft => ends_throw hleft.within
  | succ levels ih =>
    refine unpackWith_within hheading h contents (hnamed _ before member ?_) source hsource before
      member
    exact fun before member left hleft => ih hleft none (by rintro _ _ ⟨⟩) before member

end Steps

end ProviderKit.Archive
