import ProviderKit.Proofs.Disk.RealWalk

/-!
# Links that can be named

A real path is found by asking for each name on the way under the path found so far, and a link is
only noticed if that path is short enough to be asked for. `nameable` is the disk without the links
that are too deep for it. What leads to a directory there is resolved to the path of the place of
the directory (`Regular.resolve_join`), and the path of a place to itself (`Regular.resolve_place`),
however long these paths are.
-/

namespace ProviderKit.Disk

/-- The path of a place is short enough for a request. -/
def isNameable (place : Place) : Bool :=
  decide (Utf8.losslessSize (⟨.single, place⟩ : Path).text < pathLimit)

/-- The disk without the links whose places have paths that are too long. -/
def nameable (disk : Disk) : Disk :=
  disk.keep fun place =>
    match disk.get? place with
    | some (.link _) => isNameable place
    | _ => true

variable {disk : Disk}

/-! ## The disk without deep links -/

/-- What stays is an entry of the disk, and if it is a link its path is short. -/
theorem get?_of_nameable {p : Place} {entry : Entry} (h : disk.nameable.get? p = some entry) :
    disk.get? p = some entry ∧ ∀ target, entry = .link target → isNameable p = true := by
  by_cases hp : p = []
  · subst hp
    rw [get?_root] at h ⊢
    refine ⟨h, ?_⟩
    rintro target rfl
    cases h
  rw [nameable, get?_keep hp] at h
  rcases hget : disk.get? p with _ | old
  · rw [hget, ite_self] at h
    cases h
  rw [hget] at h
  cases old with
  | directory | file =>
    cases h
    exact ⟨rfl, nofun⟩
  | link target =>
    dsimp only at h
    split at h
    next hshort =>
      cases h
      exact ⟨rfl, fun _ _ => hshort⟩
    next => cases h

/-- All entries but links stay. -/
theorem nameable_of_get? {p : Place} {entry : Entry} (h : disk.get? p = some entry)
    (hentry : entry.isLink = false) : disk.nameable.get? p = some entry := by
  by_cases hp : p = []
  · subst hp
    rw [get?_root] at h ⊢
    exact h
  rw [nameable, get?_keep hp, h]
  cases entry with
  | directory | file => rfl
  | link => cases hentry

/-- A directory lies in a directory still. -/
theorem WellFormed.nameable (h : disk.WellFormed) : disk.nameable.WellFormed := by
  refine ⟨fun p name entry hentry => ?_, fun group hgroup p hp => ?_⟩
  · exact nameable_of_get? (h.parent p name entry (get?_of_nameable hentry).1) rfl
  · obtain ⟨before, hbefore, rfl⟩ := List.mem_map.1 hgroup
    obtain ⟨mode, content, hfile⟩ := h.shared before hbefore p (List.mem_filter.1 hp).1
    exact ⟨mode, content, nameable_of_get? hfile rfl⟩

/-- Its links can be found by the paths of their places. -/
theorem Regular.nameable_ordinary (h : disk.Regular) : disk.nameable.Ordinary where
  names p entry hentry := h.names p entry (get?_of_nameable hentry).1
  targets p target hlink := (h.targets p target (get?_of_nameable hlink).1).usable
  short _ target hlink := of_decide_eq_true ((get?_of_nameable hlink).2 target rfl)

/-- The disk has the entries that stay, and more. -/
theorem nameable_extended (disk : Disk) : Extended disk.nameable disk :=
  fun _ entry hentry => ⟨entry, (get?_of_nameable hentry).1, rfl⟩

/-! ## What the names of a real path are -/

/-- The names that are left behind others come from both. -/
theorem mem_leftAfter {names rest : List Text} {name : Text} (h : name ∈ leftAfter names rest) :
    name ∈ names ∨ name ∈ rest := by
  unfold leftAfter at h
  split at h
  · exact .inr (List.mem_cons_of_mem _ h)
  · exact List.mem_append.1 h

/-- The names resolved have a property that the names before them have, the names to be resolved,
and what links are resolved to. -/
theorem resolveNames_forall {P : Text → Prop} {pending : List Path}
    {expand : Path → List Text → List Text → Except Fault Resolved}
    (hlink : ∀ path here target, (∀ name ∈ path.names, P name) → (∀ name ∈ here, P name) →
      (∃ place, disk.get? place = some (.link target)) → ∀ found whole,
      expand path (targetStart here target) (writtenNames target) = .ok (found, whole) →
      ∀ name ∈ found, P name)
    {here names real : List Text} {whole : Bool} (hhere : ∀ name ∈ here, P name)
    (hnames : ∀ name ∈ names, P name)
    (h : resolveNames disk pending expand here names = .ok (real, whole)) :
    ∀ name ∈ real, P name := by
  -- By induction on the names; the names that come in through a link have the property by `hlink`.
  induction names generalizing here with
  | nil =>
    rw [resolveNames] at h
    obtain ⟨rfl, -⟩ := Prod.mk.inj (Except.ok.inj h)
    exact hhere
  | cons name rest ih =>
    have hrest : ∀ n ∈ rest, P n := fun n hn => hnames n (List.mem_cons_of_mem _ hn)
    have hmore : ∀ n ∈ here ++ [name], P n := by
      intro n hn
      obtain hold | hnew := List.mem_append.1 hn
      · exact hhere n hold
      · exact hnames n (List.mem_singleton.1 hnew ▸ List.mem_cons_self)
    have hleft : ∀ found : List Text, (∀ n ∈ found, P n) → ∀ n ∈ leftAfter found rest, P n :=
      fun found hfound n hn => (mem_leftAfter hn).elim (hfound n) (hrest n)
    rw [resolveNames] at h
    split at h
    · exact ih hhere hrest h
    split at h
    · exact ih (fun n hn => hhere n (List.dropLast_subset _ hn)) hrest h
    dsimp only at h
    split at h
    · split at h
      · cases h
      · exact ih hmore hrest h
    next place target hfind =>
      have hfound : ∃ place, disk.get? place = some (.link target) :=
        ⟨place, (find_eq_ok.1 hfind).2⟩
      split at h
      · obtain ⟨rfl, -⟩ := Prod.mk.inj (Except.ok.inj h)
        exact hleft _ hmore
      split at h
      · cases h
      next found hexpand =>
        exact ih (hlink _ here target hmore hhere hfound found true hexpand) hrest h
      next found hexpand =>
        obtain ⟨rfl, -⟩ := Prod.mk.inj (Except.ok.inj h)
        exact hleft _ (hlink _ here target hmore hhere hfound found false hexpand)
    · exact ih hmore hrest h

/-- The names resolved have a property that the names of all links have. -/
theorem resolveWith_forall {P : Text → Prop}
    (hlinks : ∀ place target, disk.get? place = some (.link target) →
      ∀ name ∈ writtenNames target, P name)
    {depth : Nat} {pending : List Path} {here names real : List Text} {whole : Bool}
    (hhere : ∀ name ∈ here, P name) (hnames : ∀ name ∈ names, P name)
    (h : resolveWith disk depth pending here names = .ok (real, whole)) :
    ∀ name ∈ real, P name := by
  -- A target starts where the link is, or at the root.
  have hstart : ∀ (here : List Text) (target : Text), (∀ name ∈ here, P name) →
      ∀ name ∈ targetStart here target, P name := by
    intro here target hhere name hname
    unfold targetStart at hname
    split at hname
    · cases hname
    · exact hhere name hname
  induction depth generalizing pending here names real whole with
  | zero =>
    refine resolveNames_forall (fun path _ _ hpath _ _ found whole hfound => ?_) hhere hnames h
    obtain ⟨rfl, -⟩ := Prod.mk.inj (Except.ok.inj hfound)
    exact hpath
  | succ depth ih =>
    refine resolveNames_forall (fun path here target _ hhere hlink found whole hfound => ?_) hhere
      hnames h
    obtain ⟨place, hplace⟩ := hlink
    exact ih (hstart here target hhere) (hlinks place target hplace) hfound

/-- The names that a link's target gives are read as they are. -/
theorem Regular.canonical_writtenNames (h : disk.Regular) {place : Place} {target : Text}
    (hlink : disk.get? place = some (.link target)) :
    ∀ name ∈ writtenNames target, Utf8.canonical name = name := by
  have hcanonical := (h.targets place target hlink).canonical
  have hpieces : ∀ piece ∈ Text.split (.char '/') target, Utf8.canonical piece = piece :=
    fun piece hpiece => Utf8.canonical_of_mem_split rfl (by decide) hcanonical hpiece
  intro name hname
  unfold writtenNames at hname
  split at hname
  next hslash =>
    cases target with
    | nil => cases hslash
    | cons c rest =>
      obtain rfl : c = .char '/' := by simpa using hslash
      exact hpieces name (by rw [Text.split, if_pos rfl]; exact List.mem_cons_of_mem _ hname)
  next => exact hpieces name hname

/-- What is left of names when each two dots have taken one away are some of them. -/
theorem mem_collapse {names : List Text} {name : Text} (h : name ∈ Path.collapse names) :
    name ∈ names := by
  have hfold : ∀ (names done : List Text),
      name ∈ names.foldl (fun done name =>
        if name = Text.ofString ".." then done.dropLast else done ++ [name]) done →
      name ∈ done ∨ name ∈ names := by
    intro names
    induction names with
    | nil => exact fun _ hmem => .inl hmem
    | cons first rest ih =>
      intro done hmem
      rw [List.foldl_cons] at hmem
      obtain hdone | hrest := ih _ hmem
      · split at hdone
        · exact .inl (List.dropLast_subset _ hdone)
        obtain hold | hfirst := List.mem_append.1 hdone
        · exact .inl hold
        · obtain rfl := List.mem_singleton.1 hfirst
          exact .inr List.mem_cons_self
      · exact .inr (List.mem_cons_of_mem _ hrest)
  exact (hfold names [] h).resolve_left (List.not_mem_nil)

/-- The names of a real path have a property that the names of the path and of all links have. -/
theorem realPath_forall [Interpreter] {P : Text → Prop}
    (hlinks : ∀ place target, disk.get? place = some (.link target) →
      ∀ name ∈ writtenNames target, P name)
    {path real : Path} (hnames : ∀ name ∈ path.names, P name)
    (hreal : disk.realPath path = .ok real) : ∀ name ∈ real.names, P name := by
  have hpath := (realPath_eq_ok.1 hreal).2
  rw [path_trace] at hpath
  rcases hresolve : resolveWith disk (disk.entries.length + 1) [] [] path.names with
    fault | ⟨names, whole⟩
  · rw [hresolve] at hpath
    cases hpath
  rw [hresolve] at hpath
  cases hpath
  intro name hname
  have hmem := (List.mem_filter.1 (mem_collapse hname)).1
  exact resolveWith_forall hlinks (by simp) hnames hresolve name hmem

/-- The names of a real path are read as they are if those of the path are. -/
theorem Regular.canonical_realPath [Interpreter] (h : disk.Regular) {path real : Path}
    (hcanonical : ∀ name ∈ path.names, Utf8.canonical name = name)
    (hreal : disk.realPath path = .ok real) :
    ∀ name ∈ real.names, Utf8.canonical name = name :=
  realPath_forall (fun _ _ hlink => h.canonical_writtenNames hlink) hcanonical hreal

/-! ## Real paths of directories -/

/-- A path along which a walk comes to an entry leads to it, unless the path is too long to be asked
for. -/
theorem find_of_walk {through : Bool} {path : Path} {place : Place} {entry : Entry}
    (husable : ∀ name ∈ path.names, Usable name)
    (hwalk : walk disk through linkLimit [] (readNames path) = .ok place)
    (hget : disk.get? place = some entry) :
    disk.find through path = .error (.refused .nameTooLong path) ∨
      disk.find through path = .ok (place, entry) := by
  have htext : Usable path.text := usable_text path.root husable
  by_cases hshort : Utf8.losslessSize path.text < pathLimit
  · exact .inr (find_eq_ok.2 ⟨locate_of_walk ⟨htext.1, htext.2, hshort⟩ hwalk, hget⟩)
  · refine .inl (find_of_locate_error ?_)
    rw [locate, if_neg (by simp [htext.1]), if_neg (by simp [htext.2]),
      if_pos (Nat.le_of_not_lt hshort)]

/-- The names of a directory's place lead to it, and a walk goes on from there. -/
theorem WellFormed.walk_below (h : disk.WellFormed) {links : Nat} {here : Place}
    (hnames : ∀ name ∈ here, IsName name) (hhere : disk.get? here = some .directory)
    (names : List Text) :
    walk disk true links [] (here ++ names) = walk disk true links here names := by
  induction here using List.reverseRecOn generalizing names with
  | nil => rfl
  | append_singleton parent name ih =>
    have hparent : disk.get? parent = some .directory := h.parent _ _ _ hhere
    have hname := hnames name (by simp)
    rw [List.append_assoc, ih (fun n hn => hnames n (List.mem_append_left _ hn)) hparent, walk_eq,
      List.singleton_append, followNames_plain hparent hname.plain hname.short, hhere, walk_eq]

/-- A path whose real path is that of a directory's place is resolved to it: there is no loop. -/
theorem Regular.resolve_of_realPath [Interpreter] (h : disk.Regular) {path : Path} {place : Place}
    (hplace : disk.get? place = some .directory)
    (hreal : disk.realPath path = .ok ⟨.single, place⟩) :
    disk.resolve path = .ok ⟨.single, place⟩ := by
  have hnames := h.names place _ hplace
  have hwalk : walk disk true linkLimit [] (readNames ⟨.single, place⟩) = .ok place := by
    rw [readNames, map_canonical hnames]
    exact h.toWellFormed.walk_along hnames hplace fun _ => rfl
  unfold resolve
  rw [hreal]
  dsimp only
  obtain hlong | hfound := find_of_walk (fun name hname => (hnames name hname).usable) hwalk hplace
  · rw [hlong]
    rfl
  · rw [hfound]

/-- The path of a directory's place is resolved to itself. -/
theorem Regular.resolve_place [Interpreter] (h : disk.Regular) {place : Place}
    (hplace : disk.get? place = some .directory) :
    disk.resolve ⟨.single, place⟩ = .ok ⟨.single, place⟩ := by
  refine h.resolve_of_realPath hplace ?_
  have hnames := h.names place _ hplace
  have hread : place.map Utf8.canonical = place := map_canonical hnames
  have hnames' : ∀ name ∈ place, IsName (Utf8.canonical name) := fun name hname =>
    (hnames name hname).canonical.symm ▸ hnames name hname
  -- A directory lies below no link.
  have hlinks : ∀ q, q <+: ([] ++ place).map Utf8.canonical → ∀ target,
      disk.get? q ≠ some (.link target) := by
    rw [List.nil_append, hread]
    intro q hq target hlink
    rw [h.toWellFormed.directory_above hplace hq] at hlink
    cases hlink
  have hstraight : traceWith disk (disk.entries.length + 1) [] [] [] (place ++ []) =
      { outcome := .ok (place, true), known := [] } := by
    rw [traceWith_eq, traceNames_straight (fun name hname => (hnames name hname).usable)
      hnames' hlinks, traceNames, List.nil_append]
  have hcollapse := collapse_below (fun name hname => leadsDown_of_isName (hnames' name hname))
    (show lexical [] [] = some [] from rfl)
  rw [List.append_nil] at hstraight hcollapse
  refine realPath_eq_ok.2 ⟨?_, ?_⟩
  · rw [Resolvable, trace, hstraight]
    exact Nat.zero_le _
  · rw [trace, hstraight, Trace.path]
    simp only [bind, Except.bind, pure, Except.pure, hcollapse]

/-! ## Going to a directory -/

/-- The text of a path leads from a directory to a directory. -/
structure LeadsTo (disk : Disk) (start : Place) (t : Text) (place : Place) : Prop where
  walk : walk disk true linkLimit (targetStart start t) (Path.namesOf t) = .ok place
  directory : disk.get? place = some .directory

section LeadsTo

variable {start place : Place} {t : Text}

/-- The names of a text, as seen from a directory, are usable and read as they are. -/
theorem Regular.names_join (h : disk.Regular) (hstart : disk.get? start = some .directory)
    (ht : IsStored t) : ∀ name ∈ ((⟨.single, start⟩ : Path).join (.ofText t)).names,
      Usable name ∧ Utf8.canonical name = name := by
  have hpart : ∀ name ∈ Path.namesOf t, Usable name ∧ Utf8.canonical name = name := by
    intro name hname
    have hpart := ht.isPart_of_mem_namesOf hname
    exact ⟨hpart.usable, hpart.canonical⟩
  intro name hname
  unfold Path.join at hname
  split at hname
  · exact hpart name hname
  · obtain hfront | hback := List.mem_append.1 hname
    · have hname := h.names start _ hstart name hfront
      exact ⟨hname.usable, hname.canonical⟩
    · exact hpart name hback

/-- Where a text leads from a directory, its path leads as seen from there. -/
theorem LeadsTo.walk_join (hleads : disk.LeadsTo start t place) (hwf : disk.WellFormed)
    (hnames : ∀ name ∈ start, IsName name) (hstart : disk.get? start = some .directory)
    (ht : IsStored t) :
    Disk.walk disk true linkLimit [] (readNames ((⟨.single, start⟩ : Path).join (.ofText t))) =
      .ok place := by
  have hread : (Path.namesOf t).map Utf8.canonical = Path.namesOf t :=
    (List.map_congr_left fun _ hname => (ht.isPart_of_mem_namesOf hname).canonical).trans
      (List.map_id _)
  have hwalk := hleads.walk
  unfold targetStart at hwalk
  unfold Path.join readNames
  split at hwalk
  next habsolute =>
    rw [if_pos habsolute]
    exact hread.symm ▸ hwalk
  next hrelative =>
    rw [if_neg hrelative, List.map_append, map_canonical hnames, hwf.walk_below hnames hstart]
    exact hread.symm ▸ hwalk

/-- A text that leads to a directory through links that can be named is resolved to the path of the
place of the directory, as seen from where it leads from. -/
theorem Regular.resolve_join [Interpreter] (h : disk.Regular)
    (hstart : disk.get? start = some .directory) (ht : IsStored t)
    (hleads : disk.nameable.LeadsTo start t place) :
    disk.resolve ((⟨.single, start⟩ : Path).join (.ofText t)) = .ok ⟨.single, place⟩ := by
  have hnames := h.names_join hstart ht
  have hwf := h.toWellFormed.nameable
  have hwalk := hleads.walk_join hwf (h.names start _ hstart) (nameable_of_get? hstart rfl) ht
  obtain ⟨real, hreal, hdenotes⟩ := realPath_of_walk hwf h.nameable_ordinary
    disk.nameable_extended (fun name hname => (hnames name hname).1) hwalk hleads.directory
  -- The names of the real path are read as they are, so they are those of the place.
  have hsame : real.map Utf8.canonical = real :=
    (List.map_congr_left (h.canonical_realPath (fun name hname => (hnames name hname).2)
      hreal)).trans (List.map_id real)
  rw [← hdenotes.read, hsame] at hleads ⊢
  exact h.resolve_of_realPath (get?_of_nameable hleads.directory).1 hreal

/-- A text that leads to a directory through links that can be named leads there. -/
theorem LeadsTo.of_nameable (h : disk.nameable.LeadsTo start t place) :
    disk.LeadsTo start t place where
  walk := walk_of_extended disk.nameable_extended
    (fun hfree => by rw [h.directory] at hfree; cases hfree) h.walk
  directory := (get?_of_nameable h.directory).1

end LeadsTo

end ProviderKit.Disk
