import ProviderKit.Disk.Real
import ProviderKit.Proofs.Disk.Names
import ProviderKit.Proofs.Text.Lossless

/-!
# Resolving names one by one

`traceNames` looks at a disk only where a name leads, so each of its steps is described once: names
that say nothing, two dots, names that are kept, and links. `resolveNames` leaves out what tracing
keeps of the links on its way. Along names between which there is no link both go straight on
(`traceNames_straight`, `resolveNames_straight`). What is kept of the names behind a loop is taken
lexically, and so is the end of a real path (`lexical`, `collapse_below`).
-/

namespace ProviderKit.Disk

/-! ## Names that lead straight on -/

/-- A name that says nothing in a path: blank, or a dot. -/
def saysNothing (name : Text) : Bool := name.isEmpty || name = Text.ofString "."

/-- A name leads down: it says something, and is not two dots. -/
structure LeadsDown (name : Text) : Prop where
  counts : saysNothing name = false
  notUp : name ≠ Text.ofString ".."

/-- A name that leads down is plain. -/
theorem LeadsDown.plain {name : Text} (h : LeadsDown name) : IsPlain name := by
  refine ⟨?_, h.notUp⟩
  rintro rfl
  cases h.counts

/-- A usable text whose bytes are all below `0x80` reads back as it is. -/
theorem canonical_of_ascii {t : Text} (husable : Usable t)
    (h : ∀ b ∈ Utf8.encodeLossless t, b.toNat < 0x80) : Utf8.canonical t = t := by
  have hwell : t.isWellFormed = true := by
    refine List.all_eq_true.2 fun c hc => ?_
    cases c with
    | char => rfl
    | surrogate s =>
      -- A surrogate that stands for a byte stands for one from `0x80` on.
      have hbyte := (usable_iff.1 husable _ hc).1
      rw [standsForByte, Bool.and_eq_true, decide_eq_true_eq, decide_eq_true_eq] at hbyte
      have hlow := h (UInt8.ofNat s.val)
        (List.mem_flatMap.2 ⟨_, hc, List.mem_singleton_self _⟩)
      rw [UInt8.toNat_ofNat'] at hlow
      omega
  rw [Utf8.canonical, if_pos hwell]

/-- A usable text that reads back as one whose bytes are all below `0x80` is that text. -/
theorem eq_of_canonical_eq {t : Text} (husable : Usable t) {s : String}
    (hs : ∀ b ∈ Utf8.encodeLossless (Text.ofString s), b.toNat < 0x80)
    (h : Utf8.canonical t = Text.ofString s) : t = Text.ofString s := by
  rw [← h, canonical_of_ascii husable]
  rw [← Utf8.encodeLossless_canonical, h]
  exact hs

/-- What is read as the name of an entry leads down. -/
theorem leadsDown_of_isName {name : Text} (h : IsName (Utf8.canonical name)) : LeadsDown name := by
  have hdot : name ≠ Text.ofString "." := by
    rintro rfl
    exact h.plain.1 (Utf8.canonical_ofString _)
  have hup : name ≠ Text.ofString ".." := by
    rintro rfl
    exact h.plain.2 (Utf8.canonical_ofString _)
  have hblank : name.isEmpty = false := by
    cases name with
    | nil => exact absurd rfl h.nonempty
    | cons => rfl
  exact ⟨by rw [saysNothing, hblank, Bool.false_or, decide_eq_false_iff_not]; exact hdot, hup⟩

/-- Names between which there is no link lead straight on, or nowhere. -/
theorem walk_straight (disk : Disk) (links : Nat) (here : Place) {names : List Text}
    (hplain : ∀ name ∈ names, IsPlain name)
    (hlinks : ∀ q, q <+: names → q ≠ [] → q ≠ names → ∀ target,
      disk.get? (here ++ q) ≠ some (.link target)) :
    walk disk false links here names = .ok (here ++ names) ∨
      ∃ reason, walk disk false links here names = .error reason := by
  rw [walk_eq]
  induction names generalizing here with
  | nil => exact .inl (by simp)
  | cons name rest ih =>
    rcases hhere : disk.get? here with _ | entry
    · exact .inr ⟨_, followNames_of_free hhere _ _⟩
    have hname := hplain name List.mem_cons_self
    by_cases hdirectory : entry = .directory
    case neg =>
      refine .inr ⟨.notDirectory, ?_⟩
      rw [followNames]
      cases entry with
      | directory => exact absurd rfl hdirectory
      | file => simp only [hhere]
      | link => simp only [hhere]
    subst hdirectory
    by_cases hlong : Utf8.losslessSize name > nameLimit
    · refine .inr ⟨.nameTooLong, ?_⟩
      rw [followNames]
      simp only [hhere, if_neg hname.1, if_neg hname.2, if_pos hlong]
    rw [followNames_plain hhere hname (Nat.le_of_not_lt hlong)]
    have hgoes : followNames disk false (behind disk links false) (here ++ [name]) rest =
          .ok (here ++ name :: rest) ∨
        ∃ reason, followNames disk false (behind disk links false) (here ++ [name]) rest =
          .error reason := by
      have hrest := ih (here ++ [name]) (fun n hn => hplain n (List.mem_cons_of_mem _ hn))
        (fun q hq hnil hne target => by
          have hmore := hlinks (name :: q) (List.cons_prefix_cons.2 ⟨rfl, hq⟩)
            (List.cons_ne_nil _ _) (fun heq => hne (List.cons.inj heq).2) target
          rwa [List.append_cons] at hmore)
      rwa [List.append_assoc] at hrest
    rcases hnext : disk.get? (here ++ [name]) with _ | entry
    · dsimp only
      cases rest with
      | nil => exact .inl rfl
      | cons => exact .inr ⟨_, rfl⟩
    cases entry with
    | directory => exact hgoes
    | file => exact hgoes
    | link target =>
      cases rest with
      | nil => exact .inl rfl
      | cons next rest =>
        exact absurd hnext (hlinks [name] (List.cons_prefix_cons.2 ⟨rfl, List.nil_prefix⟩)
          (List.cons_ne_nil _ _) (by simp) target)

/-- A path between whose names there is no link leads straight to its place, or nowhere; its text
can be read in any case. -/
theorem find_straight (disk : Disk) {names : List Text} (husable : ∀ name ∈ names, Usable name)
    (hplain : ∀ name ∈ names, IsPlain (Utf8.canonical name))
    (hlinks : ∀ q, q <+: names.map Utf8.canonical → q ≠ names.map Utf8.canonical → ∀ target,
      disk.get? q ≠ some (.link target)) :
    (∃ fault, disk.find false ⟨.single, names⟩ = .error fault ∧ fault.isPathText = false) ∨
      ∃ entry, disk.find false ⟨.single, names⟩ = .ok (names.map Utf8.canonical, entry) := by
  have htext := usable_text .single husable
  by_cases hshort : Utf8.losslessSize (⟨.single, names⟩ : Path).text < pathLimit
  case neg =>
    refine .inl ⟨.refused .nameTooLong ⟨.single, names⟩, find_of_locate_error ?_, rfl⟩
    rw [locate, if_neg (by simp [htext.1]), if_neg (by simp [htext.2]),
      if_pos (Nat.le_of_not_lt hshort)]
  have hgivable : IsGivable ⟨.single, names⟩ := ⟨htext.1, htext.2, hshort⟩
  rcases hfind : disk.find false ⟨.single, names⟩ with fault | ⟨place, entry⟩
  · obtain ⟨reason, rfl⟩ := find_error hgivable hfind
    exact .inl ⟨_, rfl, rfl⟩
  · obtain ⟨-, hwalk⟩ := walk_of_locate (find_eq_ok.1 hfind).1
    have hplain' : ∀ name ∈ names.map Utf8.canonical, IsPlain name := by
      intro name hname
      obtain ⟨raw, hraw, rfl⟩ := List.mem_map.1 hname
      exact hplain raw hraw
    rcases walk_straight disk linkLimit [] hplain'
      (fun q hq _ hne => hlinks q hq hne) with hplace | ⟨reason, hstuck⟩
    · rw [readNames, hplace] at hwalk
      obtain rfl := Except.ok.inj hwalk
      exact .inr ⟨entry, rfl⟩
    · rw [readNames, hstuck] at hwalk
      cases hwalk

/-- Along directories names lead to the entry that is there, unless it is a link to be followed. -/
theorem WellFormed.walk_along {disk : Disk} (h : disk.WellFormed) {through : Bool} {links : Nat}
    {here : Place} {names : List Text} {entry : Entry} (hnames : ∀ name ∈ names, IsName name)
    (hget : disk.get? (here ++ names) = some entry)
    (hend : through = true → entry.isLink = false) :
    walk disk through links here names = .ok (here ++ names) := by
  rw [walk_eq]
  induction names generalizing here with
  | nil => rw [followNames_nil, List.append_nil]
  | cons name rest ih =>
    have hdirectory : ∀ place more, more ≠ [] → disk.get? (place ++ more) = some entry →
        disk.get? place = some .directory := by
      intro place more hmore hsome
      refine Classical.byContradiction fun hnot => ?_
      rw [h.below hnot hmore] at hsome
      cases hsome
    have hname := hnames name List.mem_cons_self
    rw [followNames_plain (hdirectory here _ (List.cons_ne_nil _ _) hget) hname.plain hname.short]
    rw [List.append_cons] at hget
    have hrest := ih (fun n hn => hnames n (List.mem_cons_of_mem _ hn)) hget
    rw [List.append_assoc] at hrest
    cases rest with
    | cons next rest =>
      rw [hdirectory _ _ (List.cons_ne_nil _ _) hget]
      exact hrest
    | nil =>
      rw [List.append_nil] at hget
      rw [hget]
      cases entry with
      | directory => exact hrest
      | file => exact hrest
      | link target =>
        cases through with
        | false => rfl
        | true => cases hend rfl

/-! ## Resolving name by name -/

/-- The names that are reached from a place that is already resolved, whatever links are known and
however deep they nest. `expand` resolves the target of a link; `pending` are the links that are
being resolved. -/
def resolveNames (disk : Disk) (pending : List Path)
    (expand : Path → List Text → List Text → Except Fault Resolved) :
    List Text → List Text → Except Fault Resolved
  | here, [] => .ok (here, true)
  | here, name :: rest =>
    if name.isEmpty || name = Text.ofString "." then resolveNames disk pending expand here rest
    else if name = Text.ofString ".." then resolveNames disk pending expand here.dropLast rest
    else
      let path : Path := ⟨.single, here ++ [name]⟩
      match disk.find false path with
      | .error fault =>
        if fault.isPathText then .error fault
        else resolveNames disk pending expand path.names rest
      | .ok (_, .link target) =>
        if pending.contains path then .ok (leftAfter path.names rest, false)
        else
          match expand path (targetStart here target) (writtenNames target) with
          | .error fault => .error fault
          | .ok (names, true) => resolveNames disk pending expand names rest
          | .ok (names, false) => .ok (leftAfter names rest, false)
      | .ok _ => resolveNames disk pending expand path.names rest

/-- The names that are reached through links nested at most as deep as the given number. -/
def resolveWith (disk : Disk) :
    Nat → List Path → List Text → List Text → Except Fault Resolved
  | 0, pending => resolveNames disk pending fun path _ _ => .ok (path.names, false)
  | depth + 1, pending => resolveNames disk pending fun path start names =>
      resolveWith disk depth (path :: pending) start names

/-- What is reached does not depend on the links that are known. -/
theorem outcome_traceNames {disk : Disk} {pending : List Path}
    {expand : List Path → Path → List Text → List Text → Trace}
    {reach : Path → List Text → List Text → Except Fault Resolved}
    (h : ∀ known path start names, (expand known path start names).outcome = reach path start names)
    (known : List Path) (here names : List Text) :
    (traceNames disk pending expand known here names).outcome =
      resolveNames disk pending reach here names := by
  induction names generalizing known here with
  | nil => rw [traceNames, resolveNames]
  | cons name rest ih =>
    rw [traceNames, resolveNames]
    split
    · exact ih known here
    split
    · exact ih known here.dropLast
    dsimp only
    rcases disk.find false ⟨.single, here ++ [name]⟩ with fault | ⟨place, entry⟩
    · dsimp only
      split
      · rfl
      · exact ih known _
    cases entry with
    | directory => exact ih known _
    | file => exact ih known _
    | link target =>
      dsimp only
      split
      · rfl
      rw [← h known]
      rcases (expand known ⟨.single, here ++ [name]⟩ (targetStart here target)
        (writtenNames target)).outcome with fault | ⟨names, _ | _⟩
      · rfl
      · rfl
      · exact ih _ _

/-- Tracing names through links comes to what is reached. -/
theorem outcome_traceWith (disk : Disk) (depth : Nat) (pending known : List Path)
    (here names : List Text) : (traceWith disk depth pending known here names).outcome =
      resolveWith disk depth pending here names := by
  induction depth generalizing pending known here names with
  | zero =>
    rw [traceWith, resolveWith]
    refine outcome_traceNames ?_ known here names
    exact fun _ _ _ _ => rfl
  | succ depth ih =>
    rw [traceWith, resolveWith]
    exact outcome_traceNames (fun known path start names => ih (path :: pending) known start names)
      known here names

section Resolving

variable {disk : Disk} {pending known : List Path}
  {trace : List Path → Path → List Text → List Text → Trace}
  {expand : Path → List Text → List Text → Except Fault Resolved}
  {here rest : List Text} {name : Text}

/-- A name that says nothing is passed over. -/
theorem traceNames_idle (h : saysNothing name = true) :
    traceNames disk pending trace known here (name :: rest) =
      traceNames disk pending trace known here rest := by
  rw [traceNames]
  exact if_pos h

/-- Two dots take a name away. -/
theorem traceNames_up : traceNames disk pending trace known here (Text.ofString ".." :: rest) =
    traceNames disk pending trace known here.dropLast rest := by
  rw [traceNames, if_neg (by decide), if_pos rfl]

/-- A name that is no link is kept, also if nothing is found there. -/
theorem traceNames_kept (hdown : LeadsDown name)
    (hfind : (∃ fault, disk.find false ⟨.single, here ++ [name]⟩ = .error fault ∧
        fault.isPathText = false) ∨
      ∃ place entry, disk.find false ⟨.single, here ++ [name]⟩ = .ok (place, entry) ∧
        entry.isLink = false) :
    traceNames disk pending trace known here (name :: rest) =
      traceNames disk pending trace known (here ++ [name]) rest := by
  have hcounts := hdown.counts
  rw [saysNothing] at hcounts
  rw [traceNames, if_neg (by simp [hcounts]), if_neg hdown.notUp]
  dsimp only
  rcases hfind with ⟨fault, hfault, htext⟩ | ⟨place, entry, hfound, hnolink⟩
  · rw [hfault]
    dsimp only
    rw [if_neg (by simp [htext])]
  · rw [hfound]
    cases entry with
    | directory => rfl
    | file => rfl
    | link => cases hnolink

/-- A link that is being resolved is kept, and counts for nothing. -/
theorem traceNames_pending (hdown : LeadsDown name) {place : Place} {target : Text}
    (hfind : disk.find false ⟨.single, here ++ [name]⟩ = .ok (place, .link target))
    (hpending : pending.contains ⟨.single, here ++ [name]⟩ = true) :
    traceNames disk pending trace known here (name :: rest) =
      { outcome := .ok (leftAfter (here ++ [name]) rest, false), known } := by
  have hcounts := hdown.counts
  rw [saysNothing] at hcounts
  rw [traceNames, if_neg (by simp [hcounts]), if_neg hdown.notUp]
  dsimp only
  rw [hfind]
  exact if_pos hpending

/-- A link counts for one level more than its target, unless it is known; the rest of the names, if
it is resolved at all, counts by itself. -/
theorem levels_traceNames_link (hdown : LeadsDown name) {place : Place} {target : Text}
    (hfind : disk.find false ⟨.single, here ++ [name]⟩ = .ok (place, .link target)) {n : Nat}
    (htarget : pending.contains ⟨.single, here ++ [name]⟩ = false →
      (trace known ⟨.single, here ++ [name]⟩ (targetStart here target)
        (writtenNames target)).levels < n)
    (hrest : ∀ after names, (trace known ⟨.single, here ++ [name]⟩ (targetStart here target)
      (writtenNames target)).outcome = .ok (names, true) →
        (traceNames disk pending trace after names rest).levels ≤ n) :
    (traceNames disk pending trace known here (name :: rest)).levels ≤ n := by
  have hcounts := hdown.counts
  rw [saysNothing] at hcounts
  rw [traceNames, if_neg (by simp [hcounts]), if_neg hdown.notUp]
  dsimp only
  rw [hfind]
  dsimp only
  split
  · exact Nat.zero_le n
  next hnew =>
    have hlink := htarget (by simpa using hnew)
    generalize trace known ⟨.single, here ++ [name]⟩ (targetStart here target)
      (writtenNames target) = link at *
    have hlevels :
        (if known.contains ⟨.single, here ++ [name]⟩ then 0 else link.levels + 1) ≤ n := by
      split
      · exact Nat.zero_le n
      · exact hlink
    rcases houtcome : link.outcome with fault | ⟨names, _ | _⟩
    · exact hlevels
    · exact hlevels
    · exact Nat.max_le.2 ⟨hlevels, hrest _ names houtcome⟩

/-- What is reached is the outcome of tracing that knows no link. -/
theorem resolveNames_eq (expand : Path → List Text → List Text → Except Fault Resolved)
    (here names : List Text) : resolveNames disk pending expand here names =
      (traceNames disk pending (fun known path start names =>
        { outcome := expand path start names, known }) [] here names).outcome := by
  refine (outcome_traceNames ?_ [] here names).symm
  exact fun _ _ _ _ => rfl

/-- A name that says nothing is passed over. -/
theorem resolveNames_idle (h : saysNothing name = true) :
    resolveNames disk pending expand here (name :: rest) =
      resolveNames disk pending expand here rest := by
  rw [resolveNames_eq, traceNames_idle h, ← resolveNames_eq]

/-- Two dots take a name away. -/
theorem resolveNames_up : resolveNames disk pending expand here (Text.ofString ".." :: rest) =
    resolveNames disk pending expand here.dropLast rest := by
  rw [resolveNames_eq, traceNames_up, ← resolveNames_eq]

/-- A name that is no link is kept, also if nothing is found there. -/
theorem resolveNames_kept (hdown : LeadsDown name)
    (hfind : (∃ fault, disk.find false ⟨.single, here ++ [name]⟩ = .error fault ∧
        fault.isPathText = false) ∨
      ∃ place entry, disk.find false ⟨.single, here ++ [name]⟩ = .ok (place, entry) ∧
        entry.isLink = false) :
    resolveNames disk pending expand here (name :: rest) =
      resolveNames disk pending expand (here ++ [name]) rest := by
  rw [resolveNames_eq, traceNames_kept hdown hfind, ← resolveNames_eq]

/-- A link is resolved unless it is being resolved. -/
theorem resolveNames_link (hdown : LeadsDown name) {place : Place} {target : Text}
    (hfind : disk.find false ⟨.single, here ++ [name]⟩ = .ok (place, .link target)) :
    resolveNames disk pending expand here (name :: rest) =
      if pending.contains ⟨.single, here ++ [name]⟩ then
        .ok (leftAfter (here ++ [name]) rest, false)
      else
        match expand ⟨.single, here ++ [name]⟩ (targetStart here target) (writtenNames target) with
        | .error fault => .error fault
        | .ok (names, true) => resolveNames disk pending expand names rest
        | .ok (names, false) => .ok (leftAfter names rest, false) := by
  have hcounts := hdown.counts
  rw [saysNothing] at hcounts
  rw [resolveNames, if_neg (by simp [hcounts]), if_neg hdown.notUp]
  dsimp only
  rewrite [hfind]
  rfl

end Resolving

/-- How tracing goes on at a link. -/
def traceBeyond (disk : Disk) :
    Nat → List Path → List Path → Path → List Text → List Text → Trace
  | 0, _ => fun known path _ _ => { outcome := .ok (path.names, false), known }
  | depth + 1, pending => fun known path start names =>
      traceWith disk depth (path :: pending) known start names

/-- Names are traced one by one, and on at links. -/
theorem traceWith_eq (disk : Disk) (depth : Nat) (pending known : List Path)
    (here names : List Text) : traceWith disk depth pending known here names =
      traceNames disk pending (traceBeyond disk depth pending) known here names := by
  cases depth <;> rfl

/-- How resolving goes on at a link. -/
def beyond (disk : Disk) : Nat → List Path → Path → List Text → List Text → Except Fault Resolved
  | 0, _ => fun path _ _ => .ok (path.names, false)
  | depth + 1, pending => fun path start names =>
      resolveWith disk depth (path :: pending) start names

/-- Names are resolved one by one, and on at links. -/
theorem resolveWith_eq (disk : Disk) (depth : Nat) (pending : List Path) (here names : List Text) :
    resolveWith disk depth pending here names =
      resolveNames disk pending (beyond disk depth pending) here names := by
  cases depth <;> rfl

/-- Along names without a link everything is kept, and no link is resolved. -/
theorem traceNames_straight {disk : Disk} {pending known : List Path}
    {trace : List Path → Path → List Text → List Text → Trace} {here names : List Text}
    (husable : ∀ name ∈ here ++ names, Usable name)
    (hnames : ∀ name ∈ here ++ names, IsName (Utf8.canonical name))
    (hlinks : ∀ q, q <+: (here ++ names).map Utf8.canonical → ∀ target,
      disk.get? q ≠ some (.link target)) (rest : List Text) :
    traceNames disk pending trace known here (names ++ rest) =
      traceNames disk pending trace known (here ++ names) rest := by
  induction names generalizing here with
  | nil => rw [List.nil_append, List.append_nil]
  | cons name names ih =>
    rw [List.append_cons] at husable hnames hlinks ⊢
    have hpart : (here ++ [name]).map Utf8.canonical <+:
        (here ++ [name] ++ names).map Utf8.canonical :=
      (List.prefix_append _ _).map Utf8.canonical
    have husable' : ∀ n ∈ here ++ [name], Usable n := fun n hn =>
      husable n (List.mem_append_left _ hn)
    have hfind := find_straight disk husable'
      (fun n hn => (hnames n (List.mem_append_left _ hn)).plain)
      (fun q hq _ => hlinks q (hq.trans hpart))
    have hkept : (∃ fault, disk.find false ⟨.single, here ++ [name]⟩ = .error fault ∧
          fault.isPathText = false) ∨
        ∃ place entry, disk.find false ⟨.single, here ++ [name]⟩ = .ok (place, entry) ∧
          entry.isLink = false := by
      refine hfind.imp_right fun ⟨entry, hfound⟩ => ⟨_, entry, hfound, ?_⟩
      have hentry := (find_eq_ok.1 hfound).2
      cases entry with
      | directory => rfl
      | file => rfl
      | link target => exact absurd hentry (hlinks _ hpart target)
    have hdown := leadsDown_of_isName (hnames name (by simp))
    rw [List.cons_append, traceNames_kept hdown hkept]
    exact ih husable hnames hlinks

/-- Along names without a link everything is kept. -/
theorem resolveNames_straight {disk : Disk} {pending : List Path}
    {expand : Path → List Text → List Text → Except Fault Resolved} {here names : List Text}
    (husable : ∀ name ∈ here ++ names, Usable name)
    (hnames : ∀ name ∈ here ++ names, IsName (Utf8.canonical name))
    (hlinks : ∀ q, q <+: (here ++ names).map Utf8.canonical → ∀ target,
      disk.get? q ≠ some (.link target)) (rest : List Text) :
    resolveNames disk pending expand here (names ++ rest) =
      resolveNames disk pending expand (here ++ names) rest := by
  rw [resolveNames_eq, traceNames_straight husable hnames hlinks, ← resolveNames_eq]

/-! ## Names taken lexically -/

/-- Where names lead from a place below a directory, taken lexically; nowhere if they lead out of
the directory on the way. -/
def lexical : List Text → List Text → Option (List Text)
  | here, [] => some here
  | here, name :: rest =>
    if saysNothing name then lexical here rest
    else if name = Text.ofString ".." then
      if here.isEmpty then none else lexical here.dropLast rest
    else lexical (here ++ [name]) rest

/-- A name that says nothing leads nowhere else. -/
theorem lexical_idle {name : Text} (h : saysNothing name = true) (here rest : List Text) :
    lexical here (name :: rest) = lexical here rest := by
  rw [lexical, if_pos h]

/-- Two dots lead up, unless that is out. -/
theorem lexical_up {here : List Text} (h : here ≠ []) (rest : List Text) :
    lexical here (Text.ofString ".." :: rest) = lexical here.dropLast rest := by
  rw [lexical, if_neg (by decide), if_pos rfl, if_neg (by simpa using h)]

/-- A name that leads down does so. -/
theorem lexical_down {name : Text} (h : LeadsDown name) (here rest : List Text) :
    lexical here (name :: rest) = lexical (here ++ [name]) rest := by
  rw [lexical, if_neg (by simp [h.counts]), if_neg h.notUp]

/-- Names are taken in two parts. -/
theorem lexical_append (here names rest : List Text) :
    lexical here (names ++ rest) = (lexical here names).bind (lexical · rest) := by
  induction names generalizing here with
  | nil => rfl
  | cons name names ih =>
    rw [List.cons_append, lexical, lexical]
    split
    · exact ih here
    split
    · split
      · rfl
      · exact ih _
    · exact ih _

/-- Names that all lead down lead below where they start. -/
theorem lexical_downs {here names : List Text} (h : ∀ name ∈ names, LeadsDown name) :
    lexical here names = some (here ++ names) := by
  induction names generalizing here with
  | nil => rw [lexical, List.append_nil]
  | cons name names ih =>
    calc lexical here (name :: names)
        = lexical (here ++ [name]) names := lexical_down (h name List.mem_cons_self) here names
      _ = some (here ++ [name] ++ names) := ih fun n hn => h n (List.mem_cons_of_mem _ hn)
      _ = some (here ++ name :: names) := by rw [List.append_assoc, List.singleton_append]

/-- Names that all say nothing lead nowhere else. -/
theorem lexical_idles {here names : List Text} (h : ∀ name ∈ names, saysNothing name = true) :
    lexical here names = some here := by
  induction names with
  | nil => rfl
  | cons name names ih =>
    rw [lexical_idle (h name List.mem_cons_self)]
    exact ih fun n hn => h n (List.mem_cons_of_mem _ hn)

/-- The end of a real path is taken lexically: below a directory it leads where its names lead from
there, if these do not lead out. -/
theorem collapse_below {real names e : List Text}
    (hreal : ∀ name ∈ real, LeadsDown name) (h : lexical [] names = some e) :
    Path.collapse ((real ++ names).filter fun name =>
      !name.isEmpty && name != Text.ofString ".") = real ++ e := by
  -- The names are taken behind any front that two dots do not reach.
  have hfold : ∀ (base names here e : List Text), lexical here names = some e →
      (names.filter fun name => !name.isEmpty && name != Text.ofString ".").foldl
        (fun done name => if name = Text.ofString ".." then done.dropLast else done ++ [name])
        (base ++ here) = base ++ e := by
    intro base names
    induction names with
    | nil =>
      rintro here e ⟨⟩
      rfl
    | cons name names ih =>
      intro here e h
      rw [lexical] at h
      have hkeeps : (!name.isEmpty && name != Text.ofString ".") = !saysNothing name := by
        simp [saysNothing, bne, Bool.beq_eq_decide_eq]
      rw [List.filter_cons, hkeeps]
      split at h
      next htrue =>
        rw [if_neg (by simp [htrue])]
        exact ih here e h
      next hfalse =>
        rw [if_pos (by simpa using hfalse), List.foldl_cons]
        split at h
        next hup =>
          split at h
          · cases h
          next hsome =>
            have hne : here ≠ [] := by simpa using hsome
            rw [if_pos hup, List.dropLast_append_of_ne_nil hne]
            exact ih _ e h
        next hplain =>
          rw [if_neg hplain, List.append_assoc]
          exact ih _ e h
  rw [Path.collapse, List.filter_append, List.foldl_append]
  have hfirst := hfold [] real [] real (lexical_downs hreal)
  rw [List.nil_append, List.nil_append] at hfirst
  have hlast := hfold real names [] e h
  rw [List.append_nil] at hlast
  rw [hfirst, hlast]

end ProviderKit.Disk
