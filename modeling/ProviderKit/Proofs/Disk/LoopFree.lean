import Mathlib.Data.Nat.Find
import ProviderKit.Proofs.Disk.Nameable

/-!
# Disks without loops of links

On a disk without loops each link is resolved in the end, name by name, where a name that is missing
is kept and two dots behind it take it away again (`LoopFree`). The account that is kept of the
links being resolved is not needed then: it never holds the link that is met
(`resolveWith_of_plainly`), since a link that is met while another one is resolved is resolved
through fewer links than that one. So every path has a real path (`LoopFree.exists_resolve`), unless
the links on the way nest deeper than they can be resolved; along it no link is found (`IsReal`),
and it is its own real path (`IsReal.resolve_eq`).
-/

namespace ProviderKit.Disk

variable {disk : Disk}

/-! ## Loops -/

/-- Resolves names through links nested at most as deep as the given number. No account is kept of
the links that are being resolved. -/
def resolvePlainly (disk : Disk) : Nat → List Text → List Text → Except Fault Resolved
  | 0 => resolveNames disk [] fun path _ _ => .ok (path.names, false)
  | depth + 1 => resolveNames disk [] fun _ start names => resolvePlainly disk depth start names

/-- No link leads into a loop: from the directory of the link its target is resolved. -/
def LoopFree (disk : Disk) : Prop :=
  ∀ parent name target, disk.get? (parent ++ [name]) = some (.link target) →
    ∃ depth real, resolvePlainly disk depth (targetStart parent target) (writtenNames target) =
      .ok (real, true)

/-- Whether each link of a disk is resolved. -/
def isLoopFree (disk : Disk) : Bool :=
  disk.allBelow [] fun p entry => match entry with
    | .link target =>
      (resolvePlainly disk disk.entries.length (targetStart p.dropLast target)
        (writtenNames target)).toOption.any (·.2)
    | _ => true

/-- A disk can be checked to have no loops. -/
theorem loopFree_of_check (h : disk.isLoopFree = true) : disk.LoopFree := by
  intro parent name target hlink
  have hcheck : ((resolvePlainly disk disk.entries.length
      (targetStart (parent ++ [name]).dropLast target) (writtenNames target)).toOption.any
        (·.2)) = true := of_allBelow h hlink
  rw [List.dropLast_concat] at hcheck
  refine ⟨disk.entries.length, ?_⟩
  rcases hplain : resolvePlainly disk disk.entries.length (targetStart parent target)
    (writtenNames target) with fault | ⟨real, whole⟩
  · rw [hplain] at hcheck
    cases hcheck
  · rw [hplain] at hcheck
    exact ⟨real, by rw [show whole = true from hcheck]⟩

/-- How resolving goes on at a link when no account is kept. -/
def onward (disk : Disk) : Nat → Path → List Text → List Text → Except Fault Resolved
  | 0 => fun path _ _ => .ok (path.names, false)
  | depth + 1 => fun _ start names => resolvePlainly disk depth start names

/-- Names are resolved one by one, and on at links. -/
theorem resolvePlainly_eq (disk : Disk) (depth : Nat) (here names : List Text) :
    resolvePlainly disk depth here names = resolveNames disk [] (onward disk depth) here names := by
  cases depth <;> rfl

/-- Names that are resolved are resolved alike if all links on the way are. -/
theorem resolveNames_more {expand expand' : Path → List Text → List Text → Except Fault Resolved}
    (hexpand : ∀ path start names real, expand path start names = .ok (real, true) →
      expand' path start names = .ok (real, true))
    {here names real : List Text}
    (h : resolveNames disk [] expand here names = .ok (real, true)) :
    resolveNames disk [] expand' here names = .ok (real, true) := by
  induction names generalizing here with
  | nil => exact h
  | cons name rest ih =>
    rw [resolveNames] at h ⊢
    split at h
    next hidle =>
      rw [if_pos hidle]
      exact ih h
    next hidle =>
      rw [if_neg hidle]
      split at h
      next hup =>
        rw [if_pos hup]
        exact ih h
      next hup =>
        rw [if_neg hup]
        dsimp only at h ⊢
        split at h
        next fault hfault =>
          split at h
          · cases h
          next hpath =>
            rw [if_neg hpath]
            exact ih h
        next place target hlink =>
          rw [if_neg (by simp)] at h ⊢
          split at h
          · cases h
          next found hfound =>
            rw [hexpand _ _ _ _ hfound]
            exact ih h
          · cases h
        next => exact ih h

/-- Names that are resolved are resolved alike through more links. -/
theorem resolvePlainly_more {depth more : Nat} (hle : depth ≤ more) {here names real : List Text}
    (h : resolvePlainly disk depth here names = .ok (real, true)) :
    resolvePlainly disk more here names = .ok (real, true) := by
  induction depth generalizing more here names real with
  | zero =>
    rw [resolvePlainly_eq] at h ⊢
    exact resolveNames_more (fun path _ _ _ hnot => by cases hnot) h
  | succ depth ih =>
    obtain ⟨more, rfl⟩ : ∃ n, more = n + 1 := ⟨more - 1, by omega⟩
    rw [resolvePlainly_eq] at h ⊢
    exact resolveNames_more (fun _ _ _ _ hgoes => ih (Nat.le_of_succ_le_succ hle) hgoes) h

/-! ## What a request finds -/

/-- A path of usable names is looked up without a fault of its text. -/
theorem find_usable (disk : Disk) {names : List Text} (h : ∀ name ∈ names, Usable name) :
    (∃ fault, disk.find false ⟨.single, names⟩ = .error fault ∧ fault.isPathText = false) ∨
      ∃ found, disk.find false ⟨.single, names⟩ = .ok found := by
  have htext := usable_text .single h
  by_cases hshort : Utf8.losslessSize (⟨.single, names⟩ : Path).text < pathLimit
  · rcases hfind : disk.find false ⟨.single, names⟩ with fault | found
    · obtain ⟨reason, rfl⟩ := find_error ⟨htext.1, htext.2, hshort⟩ hfind
      exact .inl ⟨_, rfl, rfl⟩
    · exact .inr ⟨found, rfl⟩
  · refine .inl ⟨.refused .nameTooLong ⟨.single, names⟩, find_of_locate_error ?_, rfl⟩
    rw [locate, if_neg (by simp [htext.1]), if_neg (by simp [htext.2]),
      if_pos (Nat.le_of_not_lt hshort)]

/-- Usable names are kept, or a link is found there. -/
theorem kept_or_link (disk : Disk) {names : List Text} (h : ∀ name ∈ names, Usable name) :
    Kept disk names ∨
      ∃ place target, disk.find false ⟨.single, names⟩ = .ok (place, .link target) := by
  rcases find_usable disk h with hfault | ⟨⟨place, entry⟩, hfound⟩
  · exact .inl (.inl hfault)
  · cases entry with
    | directory => exact .inl (.inr ⟨place, _, hfound, rfl⟩)
    | file => exact .inl (.inr ⟨place, _, hfound, rfl⟩)
    | link target => exact .inr ⟨place, target, hfound⟩

/-- Where names are kept no link is found. -/
theorem Kept.not_link {names : List Text} (h : Kept disk names) (place : Place) (target : Text) :
    disk.find false ⟨.single, names⟩ ≠ .ok (place, .link target) := by
  intro hlink
  rcases h with ⟨fault, hfault, -⟩ | ⟨p, entry, hfound, hnot⟩
  · rw [hfault] at hlink
    cases hlink
  · rw [hfound] at hlink
    cases hlink
    cases hnot

/-- The names of the place are usable if those that are read as them are. -/
theorem Denotes.usable_place {names : List Text} {place : Place} (h : Denotes names place) :
    ∀ name ∈ place, Usable name := by
  intro name hname
  rw [← h.read] at hname
  obtain ⟨raw, hraw, rfl⟩ := List.mem_map.1 hname
  exact (h.usable raw hraw).canonical

/-- What is found is found under the names as they are read, and the other way round. -/
theorem Denotes.find_eq_ok {names : List Text} {place : Place} (h : Denotes names place)
    {found : Place × Entry} :
    disk.find false ⟨.single, names⟩ = .ok found ↔
      disk.find false ⟨.single, place⟩ = .ok found := by
  have hread : place.map Utf8.canonical = names.map Utf8.canonical := by
    rw [← h.read, List.map_map]
    exact List.map_congr_left fun name _ => canonical_canonical name
  have hboth (a b : List Text) (hb : ∀ name ∈ b, Usable name)
      (hab : b.map Utf8.canonical = a.map Utf8.canonical)
      (hfind : disk.find false ⟨.single, a⟩ = .ok found) :
      disk.find false ⟨.single, b⟩ = .ok found := by
    obtain ⟨hlocate, hget⟩ := Disk.find_eq_ok.1 hfind
    obtain ⟨hgivable, hwalk⟩ := walk_of_locate hlocate
    have hshort : Utf8.losslessSize (⟨.single, b⟩ : Path).text < pathLimit := by
      rw [← losslessSize_text_canonical, hab, losslessSize_text_canonical]
      exact hgivable.2.2
    refine Disk.find_eq_ok.2 ⟨locate_of_walk (isGivable_of_usable hb hshort) ?_, hget⟩
    rw [readNames] at hwalk ⊢
    rwa [hab]
  exact ⟨hboth names place h.usable_place hread, hboth place names h.usable hread.symm⟩

/-! ## Names between which no link is found -/

/-- The names are those of a real path: they lead down, and no link is found along them. -/
structure IsReal (disk : Disk) (names : List Text) : Prop where
  usable : ∀ name ∈ names, Usable name
  down : ∀ name ∈ names, LeadsDown name
  kept : ∀ front, front <+: names → front ≠ [] → Kept disk front

/-- A name that leads down is read as one that is no dots. -/
theorem LeadsDown.plain_canonical {name : Text} (h : LeadsDown name) (husable : Usable name) :
    IsPlain (Utf8.canonical name) :=
  ⟨fun hdot => h.plain.1 (eq_of_canonical_eq husable (by decide +kernel) hdot),
    fun hup => h.plain.2 (eq_of_canonical_eq husable (by decide +kernel) hup)⟩

/-- A path can be given to a disk if one with more names can. -/
theorem isGivable_of_front {root : Path.Root} {front names : List Text} (hfront : front <+: names)
    (h : IsGivable ⟨root, names⟩) : IsGivable ⟨root, front⟩ := by
  obtain ⟨rest, rfl⟩ := hfront
  induction rest using List.reverseRecOn with
  | nil => rwa [List.append_nil] at h
  | append_singleton rest last ih =>
    rw [← List.append_assoc] at h
    have hchild : IsGivable ((⟨root, front ++ rest⟩ : Path).child last) := h
    exact ih (isGivable_of_child hchild)

namespace IsReal

variable {names here : List Text} {name : Text}

theorem nil : IsReal disk [] :=
  ⟨nofun, nofun, fun _ hfront hne => absurd (List.prefix_nil.1 hfront) hne⟩

/-- The first names are those of a real path, too. -/
theorem of_front (h : IsReal disk names) (hfront : here <+: names) : IsReal disk here :=
  ⟨fun n hn => h.usable n (hfront.subset hn), fun n hn => h.down n (hfront.subset hn),
    fun _ hmore => h.kept _ (hmore.trans hfront)⟩

/-- One name more that is kept leads on along a real path. -/
theorem concat (h : IsReal disk here) (husable : Usable name) (hdown : LeadsDown name)
    (hkept : Kept disk (here ++ [name])) : IsReal disk (here ++ [name]) where
  usable := List.forall_mem_append.2 ⟨h.usable, by simpa using husable⟩
  down := List.forall_mem_append.2 ⟨h.down, by simpa using hdown⟩
  kept front hfront hne := by
    rcases List.prefix_concat_iff.1 hfront with rfl | hbefore
    · exact hkept
    · exact h.kept front hbefore hne

/-- Where a target is taken from is a real path if the directory of the link is. -/
theorem start (h : IsReal disk here) (target : Text) : IsReal disk (targetStart here target) := by
  unfold targetStart
  split
  · exact .nil
  · exact h

/-- They denote the place that they are read as. -/
theorem denotes (h : IsReal disk names) : Denotes names (names.map Utf8.canonical) :=
  ⟨rfl, h.usable⟩

/-- There is no link at a place along them, unless its path is too long to be asked for. -/
theorem get?_ne_link (h : IsReal disk names) (hdisk : disk.Regular)
    (hshort : isNameable names = true) (target : Text) :
    disk.get? (names.map Utf8.canonical) ≠ some (.link target) := by
  intro hlink
  have hne : names ≠ [] := by
    rintro rfl
    cases hlink
  have hnameable : disk.nameable.get? (names.map Utf8.canonical) = some (.link target) := by
    have hkeep : isNameable (names.map Utf8.canonical) = true := by
      rw [isNameable, losslessSize_text_canonical]
      exact hshort
    rw [nameable, get?_keep (by simpa using hne), hlink]
    exact if_pos hkeep
  exact (h.kept names (List.prefix_refl _) hne).not_link _ _
    (h.denotes.find_link hdisk.toWellFormed.nameable hdisk.nameable_ordinary
      disk.nameable_extended hnameable)

/-- No link is above a place whose path can be asked for. -/
theorem clear (h : IsReal disk names) (hdisk : disk.Regular)
    (hgivable : IsGivable ⟨.single, names⟩) :
    ∀ q, q <+: names.map Utf8.canonical → ∀ target, disk.get? q ≠ some (.link target) := by
  intro q hq target
  obtain ⟨front, hfront, rfl⟩ := List.prefix_map_iff.1 hq
  have hshort : isNameable front = true :=
    decide_eq_true (isGivable_of_front hfront hgivable).2.2
  exact (h.of_front hfront).get?_ne_link hdisk hshort target

/-- What is found behind them is found at the place that the names are read as. -/
theorem find_place (h : IsReal disk here) (hdisk : disk.Regular) (husable : Usable name)
    (hdown : LeadsDown name) {place : Place} {entry : Entry}
    (hfind : disk.find false ⟨.single, here ++ [name]⟩ = .ok (place, entry)) :
    place = (here ++ [name]).map Utf8.canonical := by
  have hgivable := (walk_of_locate (find_eq_ok.1 hfind).1).1
  have hclear := h.clear hdisk (isGivable_of_front (List.prefix_append _ _) hgivable)
  have husable' : ∀ n ∈ here ++ [name], Usable n :=
    List.forall_mem_append.2 ⟨h.usable, by simpa using husable⟩
  have hdown' : ∀ n ∈ here ++ [name], LeadsDown n :=
    List.forall_mem_append.2 ⟨h.down, by simpa using hdown⟩
  have hlinks : ∀ q, q <+: (here ++ [name]).map Utf8.canonical →
      q ≠ (here ++ [name]).map Utf8.canonical → ∀ target, disk.get? q ≠ some (.link target) := by
    intro q hq hne
    rw [List.map_append, List.map_singleton] at hq hne
    exact hclear q ((List.prefix_concat_iff.1 hq).resolve_left hne)
  rcases find_straight disk husable' (fun n hn => (hdown' n hn).plain_canonical (husable' n hn))
    hlinks with ⟨fault, hfault, -⟩ | ⟨found, hfound⟩
  · rw [hfault] at hfind
    cases hfind
  · rw [hfound] at hfind
    exact (Prod.mk.inj (Except.ok.inj hfind)).1.symm

end IsReal

/-! ## Resolving on a disk without loops -/

/-- The links that are being resolved, while another one is met that is resolved through less than
`links` others: they are different links, none of them is resolved through so few, and there is room
for all links of the disk. -/
structure Nested (disk : Disk) (links depth : Nat) (pending : List Path) : Prop where
  distinct : (pending.map readNames).Nodup
  link : ∀ path ∈ pending, ∃ parent name target, readNames path = parent ++ [name] ∧
    disk.get? (parent ++ [name]) = some (.link target) ∧ ∀ fewer < links, ∀ real,
      resolvePlainly disk fewer (targetStart parent target) (writtenNames target) ≠
        .ok (real, true)
  deep : disk.entries.length < depth + pending.length

namespace Nested

variable {links depth : Nat} {pending : List Path} {path : Path} {parent : Place}
  {name target : Text}

/-- There is room for another link. -/
theorem depth_ne_zero (h : Nested disk links depth pending) : depth ≠ 0 := by
  have hlinks : ∀ p ∈ pending.map readNames, ∃ target, disk.get? p = some (.link target) := by
    intro p hp
    obtain ⟨path, hpath, rfl⟩ := List.mem_map.1 hp
    obtain ⟨parent, name, target, hread, hlink, -⟩ := h.link path hpath
    exact ⟨target, hread ▸ hlink⟩
  have hcount := length_le_of_links h.distinct hlinks
  have hdeep := h.deep
  rw [List.length_map] at hcount
  omega

/-- A link that is resolved through fewer links than those being resolved is none of them. -/
theorem not_mem (h : Nested disk links depth pending) (hread : readNames path = parent ++ [name])
    (hlink : disk.get? (parent ++ [name]) = some (.link target)) {fewer : Nat} {real : List Text}
    (hfewer : fewer < links)
    (hreal : resolvePlainly disk fewer (targetStart parent target) (writtenNames target) =
      .ok (real, true)) : readNames path ∉ pending.map readNames := by
  intro hmem
  obtain ⟨same, hsame, heq⟩ := List.mem_map.1 hmem
  obtain ⟨parent', name', target', hread', hlink', hnot⟩ := h.link same hsame
  obtain ⟨rfl, hname⟩ := List.append_inj' (hread'.symm.trans (heq.trans hread)) rfl
  obtain rfl := List.singleton_inj.1 hname
  obtain rfl := Entry.link.inj (Option.some.inj (hlink'.symm.trans hlink))
  exact hnot fewer hfewer real hreal

/-- Another link is resolved: the least number of links that it is resolved through is the bound for
those that are met on the way. -/
theorem push (h : Nested disk links (depth + 1) pending) (hread : readNames path = parent ++ [name])
    (hlink : disk.get? (parent ++ [name]) = some (.link target))
    (hnew : readNames path ∉ pending.map readNames) {fewer : Nat} (hle : fewer ≤ links)
    (hleast : ∀ less < fewer, ∀ real,
      resolvePlainly disk less (targetStart parent target) (writtenNames target) ≠
        .ok (real, true)) :
    Nested disk fewer depth (path :: pending) where
  distinct := List.nodup_cons.2 ⟨hnew, h.distinct⟩
  link other hother := by
    rcases List.mem_cons.1 hother with rfl | hold
    · exact ⟨parent, name, target, hread, hlink, hleast⟩
    · obtain ⟨parent', name', target', hread', hlink', hnot⟩ := h.link other hold
      exact ⟨parent', name', target', hread', hlink', fun less hless =>
        hnot less (hless.trans_le hle)⟩
  deep := by
    have hdeep := h.deep
    rw [List.length_cons]
    omega

/-- At first a single link is being resolved. -/
theorem single (hread : readNames path = parent ++ [name])
    (hlink : disk.get? (parent ++ [name]) = some (.link target)) {fewer : Nat}
    (hleast : ∀ less < fewer, ∀ real,
      resolvePlainly disk less (targetStart parent target) (writtenNames target) ≠
        .ok (real, true)) :
    Nested disk fewer disk.entries.length [path] := by
  have hempty : Nested disk fewer (disk.entries.length + 1) [] := ⟨List.nodup_nil, nofun, by simp⟩
  exact hempty.push hread hlink (List.not_mem_nil) le_rfl hleast

end Nested

/-- A link that is resolved is resolved through a least number of links. -/
theorem exists_least_depth {start names : List Text}
    (h : ∃ depth real, resolvePlainly disk depth start names = .ok (real, true)) :
    ∃ fewer real, resolvePlainly disk fewer start names = .ok (real, true) ∧
      (∀ less < fewer, ∀ real, resolvePlainly disk less start names ≠ .ok (real, true)) ∧
      ∀ depth found, resolvePlainly disk depth start names = .ok (found, true) →
        fewer ≤ depth ∧ found = real := by
  classical
  obtain ⟨real, hreal⟩ := Nat.find_spec h
  refine ⟨Nat.find h, real, hreal, fun less hless real hless' => ?_, fun depth found hfound => ?_⟩
  · exact Nat.find_min h hless ⟨real, hless'⟩
  · have hle : Nat.find h ≤ depth := Nat.find_min' h ⟨found, hfound⟩
    have hsame := (resolvePlainly_more hle hreal).symm.trans hfound
    exact ⟨hle, (Prod.mk.inj (Except.ok.inj hsame)).1.symm⟩

/-- The names of a link's target are usable, and read as they are. -/
theorem Regular.writtenNames (h : disk.Regular) {place : Place} {target : Text}
    (hlink : disk.get? place = some (.link target)) :
    ∀ name ∈ writtenNames target, Usable name ∧ Utf8.canonical name = name := fun name hname =>
  ⟨usable_of_mem_writtenNames (h.targets _ _ hlink).usable hname,
    h.canonical_writtenNames hlink name hname⟩

/-- Where names are resolved without an account of links they are resolved with one, to names that
are read alike and between which no link is found. -/
theorem resolveWith_of_plainly (hdisk : disk.Regular) {links depth : Nat} {pending : List Path}
    (hnested : Nested disk links depth pending) {here raw real : List Text} {place : Place}
    (hhere : IsReal disk here) (hdenotes : Denotes here place)
    (hraw : ∀ name ∈ raw, Usable name ∧ Utf8.canonical name = name)
    (h : resolvePlainly disk links place raw = .ok (real, true)) :
    ∃ names, resolveWith disk depth pending here raw = .ok (names, true) ∧ Denotes names real ∧
      IsReal disk names := by
  -- The outer induction is on the links that the names are resolved through, the inner one on the
  -- names.
  induction links using Nat.strong_induction_on generalizing depth pending here place raw real with
  | _ links ihlinks =>
  induction raw generalizing here place with
  | nil =>
    rw [resolvePlainly_eq, resolveNames] at h
    obtain ⟨rfl, -⟩ := Prod.mk.inj (Except.ok.inj h)
    exact ⟨here, by rw [resolveWith_eq, resolveNames], hdenotes, hhere⟩
  | cons name rest ih =>
    obtain ⟨⟨husable, hread⟩, hrest⟩ := List.forall_mem_cons.1 hraw
    rw [resolveWith_eq]
    rw [resolvePlainly_eq] at h
    by_cases hidle : saysNothing name = true
    · rw [resolveNames_idle hidle, ← resolvePlainly_eq] at h
      rw [resolveNames_idle hidle, ← resolveWith_eq]
      exact ih hhere hdenotes hrest h
    by_cases hup : name = Text.ofString ".."
    · subst hup
      rw [resolveNames_up, ← resolvePlainly_eq] at h
      rw [resolveNames_up, ← resolveWith_eq]
      exact ih (hhere.of_front (List.dropLast_prefix here)) hdenotes.dropLast hrest h
    have hdown : LeadsDown name := ⟨by simpa using hidle, hup⟩
    have hmore := hdenotes.concat husable hread
    rcases kept_or_link disk hmore.usable with hkept | ⟨p, target, hfind⟩
    · have hkept' : Kept disk (place ++ [name]) := by
        refine (kept_or_link disk hmore.usable_place).resolve_right ?_
        rintro ⟨p, target, hlink⟩
        exact hkept.not_link p target (hmore.find_eq_ok.2 hlink)
      rw [resolveNames_kept hdown hkept', ← resolvePlainly_eq] at h
      rw [resolveNames_kept hdown hkept, ← resolveWith_eq]
      exact ih (hhere.concat husable hdown hkept) hmore hrest h
    -- A link: without an account it is resolved through fewer links, so it is none of the account.
    have hplace : p = place ++ [name] :=
      (hhere.find_place hdisk husable hdown hfind).trans hmore.read
    have hlink : disk.get? (place ++ [name]) = some (.link target) :=
      hplace ▸ (find_eq_ok.1 hfind).2
    have hpath : readNames ⟨.single, here ++ [name]⟩ = place ++ [name] := hmore.read
    rw [resolveNames_link hdown (hmore.find_eq_ok.1 hfind), if_neg (by simp)] at h
    obtain ⟨found, honward, hafter⟩ : ∃ found,
        onward disk links ⟨.single, place ++ [name]⟩ (targetStart place target)
          (writtenNames target) = .ok (found, true) ∧
        resolvePlainly disk links found rest = .ok (real, true) := by
      split at h
      · cases h
      next found honward => exact ⟨found, honward, (resolvePlainly_eq ..).trans h⟩
      · cases h
    obtain ⟨less, rfl⟩ : ∃ less, links = less + 1 := by
      cases links with
      | zero => cases honward
      | succ less => exact ⟨less, rfl⟩
    obtain ⟨fewer, real', hfewer, hleast, hunique⟩ := exists_least_depth ⟨less, found, honward⟩
    obtain ⟨hle, rfl⟩ := hunique less found honward
    have hnew := hnested.not_mem hpath hlink (Nat.lt_succ_of_le hle) hfewer
    obtain ⟨depth, rfl⟩ := Nat.exists_eq_succ_of_ne_zero hnested.depth_ne_zero
    obtain ⟨names, hnames, hnamesDenote, hnamesReal⟩ := ihlinks fewer (Nat.lt_succ_of_le hle)
      (hnested.push hpath hlink hnew (hle.trans (Nat.le_succ less)) hleast) (hhere.start target)
      (hdenotes.start target) (hdisk.writtenNames hlink) hfewer
    have hnot : ¬ pending.contains ⟨.single, here ++ [name]⟩ = true := fun hmem =>
      hnew (List.mem_map_of_mem (List.contains_iff_mem.1 hmem))
    have hbeyond : beyond disk (depth + 1) pending ⟨.single, here ++ [name]⟩
        (targetStart here target) (writtenNames target) = .ok (names, true) := hnames
    rw [resolveNames_link hdown hfind, if_neg hnot, hbeyond]
    dsimp only
    rw [← resolveWith_eq]
    exact ih hnamesReal hnamesDenote hrest hafter

/-- On a disk without loops names are resolved to those of a real path. -/
theorem LoopFree.exists_resolved (h : disk.LoopFree) (hdisk : disk.Regular) {here names : List Text}
    (hhere : IsReal disk here) (husable : ∀ name ∈ names, Usable name) :
    ∃ real, resolveWith disk (disk.entries.length + 1) [] here names = .ok (real, true) ∧
      IsReal disk real := by
  induction names generalizing here with
  | nil => exact ⟨here, by rw [resolveWith_eq, resolveNames], hhere⟩
  | cons name rest ih =>
    obtain ⟨hname, hrest⟩ := List.forall_mem_cons.1 husable
    rw [resolveWith_eq]
    by_cases hidle : saysNothing name = true
    · rw [resolveNames_idle hidle, ← resolveWith_eq]
      exact ih hhere hrest
    by_cases hup : name = Text.ofString ".."
    · rw [hup, resolveNames_up, ← resolveWith_eq]
      exact ih (hhere.of_front (List.dropLast_prefix here)) hrest
    have hdown : LeadsDown name := ⟨by simpa using hidle, hup⟩
    have husable' : ∀ n ∈ here ++ [name], Usable n :=
      List.forall_mem_append.2 ⟨hhere.usable, by simpa using hname⟩
    rcases kept_or_link disk husable' with hkept | ⟨p, target, hfind⟩
    · rw [resolveNames_kept hdown hkept, ← resolveWith_eq]
      exact ih (hhere.concat hname hdown hkept) hrest
    obtain rfl : p = here.map Utf8.canonical ++ [Utf8.canonical name] := by
      rw [hhere.find_place hdisk hname hdown hfind, List.map_append, List.map_singleton]
    have hlink := (find_eq_ok.1 hfind).2
    have hpath : readNames ⟨.single, here ++ [name]⟩ =
        here.map Utf8.canonical ++ [Utf8.canonical name] := List.map_append
    obtain ⟨fewer, found, hfewer, hleast, -⟩ := exists_least_depth (h _ _ _ hlink)
    obtain ⟨real, hreal, -, hsettled⟩ := resolveWith_of_plainly hdisk
      (Nested.single hpath hlink hleast) (hhere.start target) (hhere.denotes.start target)
      (hdisk.writtenNames hlink) hfewer
    have hbeyond : beyond disk (disk.entries.length + 1) [] ⟨.single, here ++ [name]⟩
        (targetStart here target) (writtenNames target) = .ok (real, true) := hreal
    rw [resolveNames_link hdown hfind, if_neg (by simp), hbeyond]
    dsimp only
    rw [← resolveWith_eq]
    exact ih hsettled hrest

/-! ## Real paths -/

/-- Where there is no link a walk comes to an end without following one. -/
theorem walk_clear (links : Nat) {here : Place} {names : List Text}
    (hplain : ∀ name ∈ names, IsPlain name)
    (hlinks : ∀ q, q <+: names → ∀ target, disk.get? (here ++ q) ≠ some (.link target)) :
    walk disk true links here names ≠ .error .tooManyLinks := by
  rw [walk_eq]
  induction names generalizing here with
  | nil =>
    rw [followNames_nil]
    rintro ⟨⟩
  | cons name rest ih =>
    obtain ⟨hname, hrest⟩ := List.forall_mem_cons.1 hplain
    rw [followNames]
    split
    · rintro ⟨⟩
    · rintro ⟨⟩
    · rintro ⟨⟩
    rw [if_neg hname.1, if_neg hname.2]
    split
    · rintro ⟨⟩
    have hmore : followNames disk true (behind disk links true) (here ++ [name]) rest ≠
        .error .tooManyLinks := ih hrest fun q hq target => by
      have hlonger := hlinks (name :: q) (List.cons_prefix_cons.2 ⟨rfl, hq⟩) target
      rwa [List.append_cons] at hlonger
    split
    · split <;> rintro ⟨⟩
    next target hlink =>
      exact absurd hlink (hlinks [name] (List.cons_prefix_cons.2 ⟨rfl, List.nil_prefix⟩) target)
    · exact hmore

/-- Names of a real path are resolved to themselves, without a link on the way. -/
theorem IsReal.traceWith_eq {here names : List Text} (h : IsReal disk (here ++ names))
    (depth : Nat) (pending known : List Path) :
    traceWith disk depth pending known here names =
      { outcome := .ok (here ++ names, true), known } := by
  rw [Disk.traceWith_eq]
  induction names generalizing here with
  | nil => rw [traceNames, List.append_nil]
  | cons name rest ih =>
    have hdown : LeadsDown name := h.down name (by simp)
    rw [List.append_cons] at h ⊢
    rw [traceNames_kept hdown (h.kept _ (List.prefix_append _ _) (by simp))]
    exact ih h

/-- Names of a real path are resolved to themselves. -/
theorem IsReal.resolveWith_eq {here names : List Text} (h : IsReal disk (here ++ names))
    (depth : Nat) (pending : List Path) :
    resolveWith disk depth pending here names = .ok (here ++ names, true) := by
  rw [← outcome_traceWith disk depth pending [], h.traceWith_eq]

/-- If nothing is found along the names of a real path, it is neither for their text nor for
links. -/
theorem IsReal.find_error {names : List Text} (h : IsReal disk names) (hdisk : disk.Regular)
    {fault : Fault} (hfind : disk.find true ⟨.single, names⟩ = .error fault) :
    fault.isPathText = false ∧ ∀ path, fault ≠ .refused .tooManyLinks path := by
  have htext := usable_text .single h.usable
  by_cases hshort : Utf8.losslessSize (⟨.single, names⟩ : Path).text < pathLimit
  · have hgivable : IsGivable ⟨.single, names⟩ := ⟨htext.1, htext.2, hshort⟩
    have hplain : ∀ name ∈ readNames ⟨.single, names⟩, IsPlain name := by
      intro name hname
      obtain ⟨raw, hraw, rfl⟩ := List.mem_map.1 hname
      exact (h.down raw hraw).plain_canonical (h.usable raw hraw)
    have hclear : walk disk true linkLimit [] (readNames ⟨.single, names⟩) ≠
        .error .tooManyLinks := walk_clear linkLimit hplain (h.clear hdisk hgivable)
    rcases hwalk : walk disk true linkLimit [] (readNames ⟨.single, names⟩) with reason | place
    · have hlocate : disk.locate true ⟨.single, names⟩ =
          .error (.refused reason ⟨.single, names⟩) := by
        rw [locate_eq hgivable, hwalk]
      rw [find_of_locate_error hlocate] at hfind
      cases hfind
      refine ⟨rfl, fun path heq => hclear ?_⟩
      rw [hwalk, (Fault.refused.inj heq).1]
    · rw [find, locate_of_walk hgivable hwalk] at hfind
      dsimp only [bind, Except.bind] at hfind
      split at hfind
      · cases hfind
      · cases hfind
        exact ⟨rfl, by rintro _ ⟨⟩⟩
  · have hlocate : disk.locate true ⟨.single, names⟩ =
        .error (.refused .nameTooLong ⟨.single, names⟩) := by
      rw [locate, if_neg (by simp [htext.1]), if_neg (by simp [htext.2]),
        if_pos (Nat.le_of_not_lt hshort)]
    rw [find_of_locate_error hlocate] at hfind
    cases hfind
    exact ⟨rfl, by rintro _ ⟨⟩⟩

section Interpreted

variable [Interpreter]

/-- A path whose names are resolved to those of a real path has that real path, unless the links on
the way nest too deep. -/
theorem IsReal.resolve_of_resolveWith {real : List Text} (h : IsReal disk real)
    (hdisk : disk.Regular) {path : Path} (hlevels : disk.Resolvable path)
    (hresolve : resolveWith disk (disk.entries.length + 1) [] [] path.names = .ok (real, true)) :
    disk.resolve path = .ok ⟨.single, real⟩ := by
  have hcollapse := collapse_below h.down (show lexical [] [] = some [] from rfl)
  rw [List.append_nil] at hcollapse
  rw [resolve, realPath_of_resolved hresolve hlevels, hcollapse]
  dsimp only
  split
  next reason p hloop => exact absurd rfl ((h.find_error hdisk hloop).2 _)
  next fault _ hfault => rw [if_neg (by simp [(h.find_error hdisk hfault).1])]
  · rfl

/-- On a disk without loops every path of usable names has a real path, unless the links on the way
nest too deep. -/
theorem LoopFree.exists_resolve (h : disk.LoopFree) (hdisk : disk.Regular) {path : Path}
    (hlevels : disk.Resolvable path) (husable : ∀ name ∈ path.names, Usable name) :
    ∃ real, disk.resolve path = .ok ⟨.single, real⟩ ∧ IsReal disk real := by
  obtain ⟨real, hresolve, hreal⟩ := h.exists_resolved hdisk .nil husable
  exact ⟨real, hreal.resolve_of_resolveWith hdisk hlevels hresolve, hreal⟩

/-- No link is on the way along a real path. -/
theorem IsReal.resolvable {real : List Text} (h : IsReal disk real) :
    disk.Resolvable ⟨.single, real⟩ := by
  rw [Resolvable, trace, traceWith_eq h]
  exact Nat.zero_le _

/-- A real path is its own real path. -/
theorem IsReal.resolve_eq {real : List Text} (h : IsReal disk real) (hdisk : disk.Regular) :
    disk.resolve ⟨.single, real⟩ = .ok ⟨.single, real⟩ :=
  h.resolve_of_resolveWith hdisk h.resolvable (resolveWith_eq h _ _)

end Interpreted

end ProviderKit.Disk
