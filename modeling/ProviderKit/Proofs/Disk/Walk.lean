import ProviderKit.Disk.Walk
import ProviderKit.Proofs.Disk.View

/-!
# Where walks lead

A walk looks at the disk only through `Disk.get?`, so two disks that look alike where it comes by
lead it to the same place. `followNames_step` says once what one name of a walk can do. A walk that
arrives is a chain of such steps (`Disk.Walks`, `walk_eq_ok`), and the facts about walks that arrive
follow by induction on the steps.
-/

namespace ProviderKit.Disk

/-- A name that leads neither nowhere nor upwards. -/
def IsPlain (name : Text) : Prop := name ≠ Text.ofString "." ∧ name ≠ Text.ofString ".."

/-- The text of a path can be given to a disk. -/
def IsGivable (path : Path) : Prop :=
  isEncodable path.text = true ∧ hasNull path.text = false ∧
    Utf8.losslessSize path.text < pathLimit

instance (path : Path) : Decidable (IsGivable path) := inferInstanceAs (Decidable (_ ∧ _ ∧ _))

/-- The names that a disk reads in a path. -/
def readNames (path : Path) : List Text := path.names.map Utf8.canonical

/-! ## From paths to walks -/

/-- A path that can be given leads where its names lead. -/
theorem locate_eq {path : Path} (h : IsGivable path) (disk : Disk) (through : Bool) :
    disk.locate through path =
      match walk disk through linkLimit [] (readNames path) with
      | .ok place => .ok place
      | .error reason => .error (.refused reason path) := by
  obtain ⟨hencodable, hnull, hsize⟩ := h
  rw [locate, if_neg (by simp [hencodable]), if_neg (by simp [hnull]), if_neg (by omega)]
  rfl

/-- A path that cannot be given leads nowhere, but is not said to be missing. -/
theorem locate_of_not_givable {path : Path} (h : ¬ IsGivable path) (disk : Disk)
    (through : Bool) : ∃ fault, disk.locate through path = .error fault ∧
      fault ≠ .refused .missing path := by
  unfold locate
  by_cases hencodable : isEncodable path.text = true
  case neg => exact ⟨_, if_pos (by simpa using hencodable), by simp⟩
  rw [if_neg (by simp [hencodable])]
  by_cases hnull : hasNull path.text = true
  case pos => exact ⟨_, if_pos hnull, by simp⟩
  rw [if_neg hnull]
  by_cases hlong : Utf8.losslessSize path.text ≥ pathLimit
  case pos => exact ⟨_, if_pos hlong, by simp⟩
  exact absurd ⟨hencodable, by simpa using hnull, Nat.lt_of_not_le hlong⟩ h

/-- A path that leads somewhere can be given, and its names lead there. -/
theorem walk_of_locate {disk : Disk} {through : Bool} {path : Path} {place : Place}
    (h : disk.locate through path = .ok place) :
    IsGivable path ∧ walk disk through linkLimit [] (readNames path) = .ok place := by
  by_cases hgivable : IsGivable path
  · refine ⟨hgivable, ?_⟩
    rw [locate_eq hgivable] at h
    split at h
    next heq => rw [heq]; cases h; rfl
    next => cases h
  · obtain ⟨fault, hfault, -⟩ := locate_of_not_givable hgivable disk through
    rw [hfault] at h
    cases h

/-- Only a path that can be given is missing. -/
theorem givable_of_missing {disk : Disk} {through : Bool} {path : Path}
    (h : disk.locate through path = .error (.refused .missing path)) : IsGivable path := by
  refine Classical.byContradiction fun hgivable => ?_
  obtain ⟨fault, hfault, hne⟩ := locate_of_not_givable hgivable disk through
  rw [h] at hfault
  cases hfault
  exact hne rfl

/-- A walk to a place locates it. -/
theorem locate_of_walk {disk : Disk} {through : Bool} {path : Path} {place : Place}
    (hgivable : IsGivable path)
    (h : walk disk through linkLimit [] (readNames path) = .ok place) :
    disk.locate through path = .ok place := by
  rw [locate_eq hgivable, h]

/-- A path that can be given is refused for a numbered reason only. -/
theorem locate_error {disk : Disk} {through : Bool} {path : Path} {fault : Fault}
    (hgivable : IsGivable path) (h : disk.locate through path = .error fault) :
    ∃ reason, fault = .refused reason path ∧
      walk disk through linkLimit [] (readNames path) = .error reason := by
  rw [locate_eq hgivable] at h
  split at h
  next => cases h
  next reason heq =>
    cases h
    exact ⟨reason, rfl, heq⟩

/-- What a path is found to lead to stands at the place where it is located. -/
theorem find_eq_ok {disk : Disk} {through : Bool} {path : Path} {place : Place} {entry : Entry} :
    disk.find through path = .ok (place, entry) ↔
      disk.locate through path = .ok place ∧ disk.get? place = some entry := by
  unfold find
  rcases hlocate : disk.locate through path with fault | p
  · simp [bind, Except.bind]
  · rcases hget : disk.get? p with _ | e
    · simp only [bind, Except.bind, hget, reduceCtorEq, false_iff, not_and]
      rintro ⟨⟩
      simp [hget]
    · simp only [bind, Except.bind, hget]
      constructor
      · rintro ⟨⟩
        exact ⟨rfl, hget⟩
      · rintro ⟨⟨⟩, h⟩
        rw [hget] at h
        cases h
        rfl

/-- Nothing is found where a path leads to a free place. -/
theorem find_of_free {disk : Disk} {through : Bool} {path : Path} {place : Place}
    (hlocate : disk.locate through path = .ok place) (hfree : disk.get? place = none) :
    disk.find through path = .error (.refused .missing path) := by
  rw [find, hlocate]
  simp only [bind, Except.bind, hfree]

/-- Nothing is found where a path cannot be followed. -/
theorem find_of_locate_error {disk : Disk} {through : Bool} {path : Path} {fault : Fault}
    (h : disk.locate through path = .error fault) : disk.find through path = .error fault := by
  rw [find, h]
  rfl

/-- A path that can be given is not found for a numbered reason only. -/
theorem find_error {disk : Disk} {through : Bool} {path : Path} {fault : Fault}
    (hgivable : IsGivable path) (h : disk.find through path = .error fault) :
    ∃ reason, fault = .refused reason path := by
  rcases hlocate : disk.locate through path with other | place
  · rw [find_of_locate_error hlocate] at h
    cases h
    obtain ⟨reason, rfl, -⟩ := locate_error hgivable hlocate
    exact ⟨reason, rfl⟩
  · rcases hget : disk.get? place with _ | entry
    · rw [find_of_free hlocate hget] at h
      cases h
      exact ⟨_, rfl⟩
    · rw [find_eq_ok.2 ⟨hlocate, hget⟩] at h
      cases h

/-- A path leads to a file just if a file is found there. -/
theorem isFile?_eq_true {disk : Disk} {path : Path} :
    disk.isFile? path = .ok true ↔
      ∃ place mode content, disk.find true path = .ok (place, .file mode content) := by
  unfold isFile? test
  rcases hfind : disk.find true path with fault | ⟨place, entry⟩
  · cases hfault : fault.isAbsence <;> simp [hfault]
  · cases entry <;> simp [Entry.isFile]

/-- A path leads to a directory just if one is found there. -/
theorem isDirectory?_eq_true {disk : Disk} {path : Path} :
    disk.isDirectory? path = .ok true ↔ ∃ place, disk.find true path = .ok (place, .directory) := by
  unfold isDirectory? test
  rcases hfind : disk.find true path with fault | ⟨place, entry⟩
  · cases hfault : fault.isAbsence <;> simp [hfault]
  · cases entry <;> simp [Entry.isDirectory]

/-! ## One name of a walk -/

variable {disk other : Disk} {through : Bool}
  {expand expand' : Place → List Text → Except Reason Place}

/-- A walk without names has arrived. -/
@[simp]
theorem followNames_nil (here : Place) : followNames disk through expand here [] = .ok here := by
  rw [followNames]

/-- A dot is passed over. -/
theorem followNames_dot {here : Place} (h : disk.get? here = some .directory) (rest : List Text) :
    followNames disk through expand here (Text.ofString "." :: rest) =
      followNames disk through expand here rest := by
  rw [followNames]
  simp only [h, if_true]

/-- Two dots lead to the directory above. -/
theorem followNames_up {here : Place} (h : disk.get? here = some .directory) (rest : List Text) :
    followNames disk through expand here (Text.ofString ".." :: rest) =
      followNames disk through expand here.dropLast rest := by
  have hne : Text.ofString ".." ≠ Text.ofString "." := by decide
  rw [followNames]
  simp only [h, if_neg hne, if_true]

/-- A plain name is looked up in the directory where the walk is. -/
theorem followNames_plain {here : Place} (h : disk.get? here = some .directory) {name : Text}
    (hplain : IsPlain name) (hshort : Utf8.losslessSize name ≤ nameLimit) (rest : List Text) :
    followNames disk through expand here (name :: rest) =
      match disk.get? (here ++ [name]) with
      | none => if rest.isEmpty then .ok (here ++ [name]) else .error .missing
      | some (.link target) =>
        if rest.isEmpty && !through then .ok (here ++ [name])
        else expand (targetStart here target) (targetNames target ++ rest)
      | some _ => followNames disk through expand (here ++ [name]) rest := by
  rw [followNames, h]
  dsimp only
  rw [if_neg hplain.1, if_neg hplain.2]
  exact if_neg (Nat.not_lt.2 hshort)

/-- Where there is nothing, no name can be followed. -/
theorem followNames_of_free {here : Place} (h : disk.get? here = none) (name : Text)
    (rest : List Text) :
    followNames disk through expand here (name :: rest) = .error .missing := by
  rw [followNames]
  simp only [h]

/-- What one name of a walk can do: it cannot be followed, it leads nowhere or upwards, it is the
end of the walk, it leads down, or a link takes its place. -/
theorem followNames_step {here p : Place} {name : Text} {rest : List Text}
    (h : followNames disk through expand here (name :: rest) = .ok p) :
    disk.get? here = some .directory ∧
    ((name = Text.ofString "." ∧ followNames disk through expand here rest = .ok p) ∨
     (name = Text.ofString ".." ∧ followNames disk through expand here.dropLast rest = .ok p) ∨
     (IsPlain name ∧ Utf8.losslessSize name ≤ nameLimit ∧
       ((disk.get? (here ++ [name]) = none ∧ rest = [] ∧ p = here ++ [name]) ∨
        (∃ target, disk.get? (here ++ [name]) = some (.link target) ∧ rest = [] ∧
          through = false ∧ p = here ++ [name]) ∨
        (∃ target, disk.get? (here ++ [name]) = some (.link target) ∧
          (rest ≠ [] ∨ through = true) ∧
          expand (targetStart here target) (targetNames target ++ rest) = .ok p) ∨
        (∃ entry, disk.get? (here ++ [name]) = some entry ∧ entry.isLink = false ∧
          followNames disk through expand (here ++ [name]) rest = .ok p)))) := by
  rw [followNames.eq_def] at h
  dsimp only at h
  split at h
  · cases h
  · cases h
  · cases h
  next hhere =>
    -- From here on the cases are those of the definition, in its order.
    refine ⟨hhere, ?_⟩
    by_cases hdot : name = Text.ofString "."
    · rw [if_pos hdot] at h
      exact .inl ⟨hdot, h⟩
    rw [if_neg hdot] at h
    by_cases hup : name = Text.ofString ".."
    · rw [if_pos hup] at h
      exact .inr (.inl ⟨hup, h⟩)
    rw [if_neg hup] at h
    by_cases hlong : Utf8.losslessSize name > nameLimit
    · rw [if_pos hlong] at h
      cases h
    rw [if_neg hlong] at h
    refine .inr (.inr ⟨⟨hdot, hup⟩, Nat.le_of_not_lt hlong, ?_⟩)
    split at h
    next hnone =>
      rcases rest with _ | ⟨next, rest⟩
      · cases h
        exact .inl ⟨hnone, rfl, rfl⟩
      · cases h
    next target hlink =>
      split at h
      next hend =>
        rw [Bool.and_eq_true, List.isEmpty_iff, Bool.not_eq_true'] at hend
        cases h
        exact .inr (.inl ⟨target, hlink, hend.1, hend.2, rfl⟩)
      next hend =>
        refine .inr (.inr (.inl ⟨target, hlink, ?_, h⟩))
        rcases rest with _ | ⟨next, rest⟩
        · exact .inr (by simpa using hend)
        · exact .inl (List.cons_ne_nil _ _)
    next entry hnolink hentry =>
      refine .inr (.inr (.inr ⟨entry, hentry, ?_, h⟩))
      cases entry with
      | link target => exact absurd rfl (hnolink target)
      | directory => rfl
      | file => rfl

/-! ## Whole walks -/

/-- How a walk goes on behind a link. -/
def behind (disk : Disk) : Nat → Bool → Place → List Text → Except Reason Place
  | 0, _ => fun _ _ => .error .tooManyLinks
  | links + 1, through => walk disk through links

/-- A walk follows its names, and goes on behind links. -/
theorem walk_eq (disk : Disk) (through : Bool) (links : Nat) (here : Place) (names : List Text) :
    walk disk through links here names =
      followNames disk through (behind disk links through) here names := by
  cases links <;> rfl

/-- A walk looks up a plain name in the directory where it is. -/
structure LooksUp (disk : Disk) (here : Place) (name : Text) : Prop where
  directory : disk.get? here = some .directory
  plain : IsPlain name
  short : Utf8.losslessSize name ≤ nameLimit

section Steps

variable {links : Nat} {here : Place} {name : Text} {rest : List Text}

/-- A walk does not mind a dot. -/
theorem walk_dot (h : disk.get? here = some .directory) :
    walk disk through links here (Text.ofString "." :: rest) =
      walk disk through links here rest := by
  rw [walk_eq, followNames_dot h, ← walk_eq]

/-- A walk goes up at two dots. -/
theorem walk_up (h : disk.get? here = some .directory) :
    walk disk through links here (Text.ofString ".." :: rest) =
      walk disk through links here.dropLast rest := by
  rw [walk_eq, followNames_up h, ← walk_eq]

/-- Where there is nothing, a walk goes nowhere. -/
theorem walk_of_free (h : disk.get? here = none) :
    walk disk through links here (name :: rest) = .error .missing := by
  rw [walk_eq, followNames_of_free h]

/-- A walk whose next name is not there arrives there with its last name only. -/
theorem walk_free (h : LooksUp disk here name) (hfree : disk.get? (here ++ [name]) = none) :
    walk disk through links here (name :: rest) =
      if rest.isEmpty then .ok (here ++ [name]) else .error .missing := by
  rw [walk_eq, followNames_plain h.directory h.plain h.short, hfree]

/-- A walk that does not follow the last link stays at it. -/
theorem walk_stop (h : LooksUp disk here name) {target : Text}
    (hlink : disk.get? (here ++ [name]) = some (.link target)) :
    walk disk false links here [name] = .ok (here ++ [name]) := by
  rw [walk_eq, followNames_plain h.directory h.plain h.short, hlink]
  rfl

/-- A walk goes on along the target of a link. -/
theorem walk_follow (h : LooksUp disk here name) {target : Text}
    (hlink : disk.get? (here ++ [name]) = some (.link target))
    (hmore : rest ≠ [] ∨ through = true) :
    walk disk through (links + 1) here (name :: rest) =
      walk disk through links (targetStart here target) (targetNames target ++ rest) := by
  rw [walk_eq, followNames_plain h.directory h.plain h.short, hlink]
  exact if_neg (by simpa [List.isEmpty_iff] using fun hnil => hmore.resolve_left (· hnil))

/-- A walk goes down at the name of an entry that is no link. -/
theorem walk_down (h : LooksUp disk here name) {entry : Entry}
    (hentry : disk.get? (here ++ [name]) = some entry) (hnolink : entry.isLink = false) :
    walk disk through links here (name :: rest) =
      walk disk through links (here ++ [name]) rest := by
  rw [walk_eq, followNames_plain h.directory h.plain h.short, hentry, walk_eq]
  cases entry with
  | link => cases hnolink
  | directory => rfl
  | file => rfl

end Steps

/-- The steps of a walk that arrives at a place. -/
inductive Walks (disk : Disk) (through : Bool) (p : Place) : Nat → Place → List Text → Prop
  /-- It is there. -/
  | arrived {links : Nat} : Walks disk through p links p []
  /-- It passes over a dot. -/
  | dot {links : Nat} {here : Place} {rest : List Text}
    (directory : disk.get? here = some .directory) (next : Walks disk through p links here rest) :
    Walks disk through p links here (Text.ofString "." :: rest)
  /-- It goes up at two dots. -/
  | up {links : Nat} {here : Place} {rest : List Text}
    (directory : disk.get? here = some .directory)
    (next : Walks disk through p links here.dropLast rest) :
    Walks disk through p links here (Text.ofString ".." :: rest)
  /-- Its last name is not there. -/
  | free {links : Nat} {here : Place} {name : Text} (looks : LooksUp disk here name)
    (free : disk.get? (here ++ [name]) = none) (last : p = here ++ [name]) :
    Walks disk through p links here [name]
  /-- It stays at a link. -/
  | stop {links : Nat} {here : Place} {name target : Text} (looks : LooksUp disk here name)
    (link : disk.get? (here ++ [name]) = some (.link target)) (stays : through = false)
    (last : p = here ++ [name]) : Walks disk through p links here [name]
  /-- It follows a link. -/
  | follow {links : Nat} {here : Place} {name target : Text} {rest : List Text}
    (looks : LooksUp disk here name)
    (link : disk.get? (here ++ [name]) = some (.link target)) (more : rest ≠ [] ∨ through = true)
    (next : Walks disk through p links (targetStart here target) (targetNames target ++ rest)) :
    Walks disk through p (links + 1) here (name :: rest)
  /-- It goes down. -/
  | down {links : Nat} {here : Place} {name : Text} {rest : List Text} {entry : Entry}
    (looks : LooksUp disk here name) (there : disk.get? (here ++ [name]) = some entry)
    (noLink : entry.isLink = false) (next : Walks disk through p links (here ++ [name]) rest) :
    Walks disk through p links here (name :: rest)

/-- A walk that goes on is in a directory. -/
theorem Walks.directory {links : Nat} {here p : Place} {name : Text} {rest : List Text}
    (h : Walks disk through p links here (name :: rest)) : disk.get? here = some .directory := by
  cases h with
  | dot hhere => exact hhere
  | up hhere => exact hhere
  | free hlooks => exact hlooks.directory
  | stop hlooks => exact hlooks.directory
  | follow hlooks => exact hlooks.directory
  | down hlooks => exact hlooks.directory

/-- A walk that arrives does so step by step. -/
theorem walks_of_walk {links : Nat} {here p : Place} {names : List Text}
    (h : walk disk through links here names = .ok p) : Walks disk through p links here names := by
  -- The steps between two links come first; what stands behind a link is walked with one less.
  have hfollow : ∀ links : Nat,
      (∀ here names, behind disk links through here names = .ok p → ∃ left, links = left + 1 ∧
        Walks disk through p left here names) →
      ∀ names here, walk disk through links here names = .ok p →
        Walks disk through p links here names := by
    intro links hbehind names
    simp only [walk_eq disk through links]
    induction names with
    | nil =>
      intro here h
      rw [followNames_nil] at h
      cases h
      exact .arrived
    | cons name rest ih =>
      intro here h
      obtain ⟨hhere, ⟨rfl, hrest⟩ | ⟨rfl, hrest⟩ | ⟨hplain, hshort, hcases⟩⟩ :=
        followNames_step h
      · exact .dot hhere (ih _ hrest)
      · exact .up hhere (ih _ hrest)
      have hlooks : LooksUp disk here name := ⟨hhere, hplain, hshort⟩
      rcases hcases with ⟨hfree, rfl, hp⟩ | ⟨target, hlink, rfl, hstays, hp⟩ |
        ⟨target, hlink, hmore, hrest⟩ | ⟨entry, hentry, hnolink, hrest⟩
      · exact .free hlooks hfree hp
      · exact .stop hlooks hlink hstays hp
      · obtain ⟨left, rfl, hnext⟩ := hbehind _ _ hrest
        exact .follow hlooks hlink hmore hnext
      · exact .down hlooks hentry hnolink (ih _ hrest)
  induction links generalizing here names with
  | zero => exact hfollow 0 (fun _ _ h => by cases h) names here h
  | succ links ih => exact hfollow (links + 1) (fun _ _ h => ⟨links, rfl, ih h⟩) names here h

/-- Such steps are the walk. -/
theorem Walks.walk {links : Nat} {here p : Place} {names : List Text}
    (h : Walks disk through p links here names) : walk disk through links here names = .ok p := by
  induction h with
  | arrived => rw [walk_eq, followNames_nil]
  | dot hhere _ ih => rw [walk_dot hhere, ih]
  | up hhere _ ih => rw [walk_up hhere, ih]
  | free hlooks hfree hp =>
    rw [walk_free hlooks hfree, hp]
    rfl
  | stop hlooks hlink hstays hp =>
    subst hstays
    rw [walk_stop hlooks hlink, hp]
  | follow hlooks hlink hmore _ ih => rw [walk_follow hlooks hlink hmore, ih]
  | down hlooks hentry hnolink _ ih => rw [walk_down hlooks hentry hnolink, ih]

/-- A walk arrives just if there are such steps. -/
theorem walk_eq_ok {links : Nat} {here p : Place} {names : List Text} :
    walk disk through links here names = .ok p ↔ Walks disk through p links here names :=
  ⟨walks_of_walk, Walks.walk⟩

/-- A walk that goes nowhere comes to a name that is too long, to one that is not there, to one that
is no directory, or to too many links. -/
theorem walk_error {disk : Disk} {through : Bool} {links : Nat} {here : Place} {names : List Text}
    {reason : Reason} (h : walk disk through links here names = .error reason) :
    reason = .nameTooLong ∨ reason = .missing ∨ reason = .notDirectory ∨
      reason = .tooManyLinks := by
  have hfollow : ∀ expand : Place → List Text → Except Reason Place,
      (∀ here names, expand here names = .error reason →
        reason = .nameTooLong ∨ reason = .missing ∨ reason = .notDirectory ∨
          reason = .tooManyLinks) →
      ∀ names here, followNames disk through expand here names = .error reason →
        reason = .nameTooLong ∨ reason = .missing ∨ reason = .notDirectory ∨
          reason = .tooManyLinks := by
    intro expand hexpand names
    induction names with
    | nil =>
      intro here h
      rw [followNames_nil] at h
      cases h
    | cons name rest ih =>
      intro here h
      rw [followNames.eq_def] at h
      dsimp only at h
      split at h
      · cases h
        exact .inr (.inl rfl)
      · cases h
        exact .inr (.inr (.inl rfl))
      · cases h
        exact .inr (.inr (.inl rfl))
      split at h
      · exact ih _ h
      split at h
      · exact ih _ h
      split at h
      · cases h
        exact .inl rfl
      split at h
      · split at h
        · cases h
        · cases h
          exact .inr (.inl rfl)
      · split at h
        · cases h
        · exact hexpand _ _ h
      · exact ih _ h
  induction links generalizing here names with
  | zero =>
    refine hfollow _ (fun _ _ h => ?_) names here h
    cases h
    exact .inr (.inr (.inr rfl))
  | succ links ih => exact hfollow _ (fun _ _ h => ih h) names here h

/-- A path that leads to nothing leads nowhere, or is too long to be followed. -/
theorem find_fault {disk : Disk} {through : Bool} {path : Path} {fault : Fault}
    (h : disk.find through path = .error fault) :
    fault.isAbsence = true ∨ fault = .refused .nameTooLong path := by
  rcases hlocate : disk.locate through path with other | place
  case ok =>
    rcases hget : disk.get? place with _ | entry
    · rw [find_of_free hlocate hget] at h
      cases h
      exact .inl rfl
    · rw [find_eq_ok.2 ⟨hlocate, hget⟩] at h
      cases h
  rw [find_of_locate_error hlocate] at h
  cases h
  by_cases hgivable : IsGivable path
  · obtain ⟨reason, rfl, hwalk⟩ := locate_error hgivable hlocate
    rcases walk_error hwalk with rfl | rfl | rfl | rfl
    · exact .inr rfl
    · exact .inl rfl
    · exact .inl rfl
    · exact .inl rfl
  · unfold locate at hlocate
    split at hlocate
    · cases hlocate
      exact .inl rfl
    split at hlocate
    · cases hlocate
      exact .inl rfl
    next hencodable hnull =>
      split at hlocate
      · cases hlocate
        exact .inr rfl
      next hlong =>
        refine absurd ⟨?_, ?_, Nat.lt_of_not_le hlong⟩ hgivable
        · simpa using hencodable
        · simpa using hnull

/-- A walk that does not follow the last link ends at its last name, in a directory, if that name is
plain. -/
theorem walk_append_plain {disk : Disk} {name : Text} (hplain : IsPlain name) {links : Nat}
    {here p : Place} {names : List Text}
    (h : walk disk false links here (names ++ [name]) = .ok p) :
    ∃ parent, p = parent ++ [name] ∧ disk.get? parent = some .directory := by
  rw [walk_eq_ok] at h
  generalize hall : names ++ [name] = all at h
  induction h generalizing names with
  | arrived => simp at hall
  | dot _ _ ih =>
    rcases names with _ | ⟨first, names⟩
    · exact absurd (List.cons.inj hall).1 hplain.1
    · exact ih (List.cons.inj hall).2
  | up _ _ ih =>
    rcases names with _ | ⟨first, names⟩
    · exact absurd (List.cons.inj hall).1 hplain.2
    · exact ih (List.cons.inj hall).2
  | free hlooks _ hp =>
    rw [List.append_eq_singleton_iff] at hall
    simp only [List.cons_ne_nil, and_false, or_false, List.cons.injEq, and_true] at hall
    exact ⟨_, hall.2 ▸ hp, hlooks.directory⟩
  | stop hlooks _ _ hp =>
    rw [List.append_eq_singleton_iff] at hall
    simp only [List.cons_ne_nil, and_false, or_false, List.cons.injEq, and_true] at hall
    exact ⟨_, hall.2 ▸ hp, hlooks.directory⟩
  | follow _ _ hmore _ ih =>
    -- What stands behind a link ends in the same name.
    rcases names with _ | ⟨first, names⟩
    · simp [← (List.cons.inj hall).2] at hmore
    · obtain ⟨-, rfl⟩ := List.cons.inj hall
      exact ih (List.append_assoc _ _ _)
  | down hlooks _ _ hnext ih =>
    rcases names with _ | ⟨first, names⟩
    · obtain ⟨rfl, rfl⟩ := List.cons.inj hall
      cases hnext
      exact ⟨_, rfl, hlooks.directory⟩
    · exact ih (List.cons.inj hall).2

/-- The second disk has all the entries of the first but the one at a place. -/
structure Vanished (q : Place) (disk other : Disk) : Prop where
  kept : ∀ p entry, p ≠ q → disk.get? p = some entry → other.get? p = some entry
  gone : other.get? q = none

/-- What is looked up elsewhere is looked up when a place has vanished. -/
theorem Vanished.looksUp {disk other : Disk} {q here : Place} {name : Text}
    (h : Vanished q disk other) (hq : here ≠ q) (hlooks : LooksUp disk here name) :
    LooksUp other here name :=
  { hlooks with directory := h.kept _ _ hq hlooks.directory }

/-- Walks that are the same wherever a place has vanished fare alike there. -/
theorem Vanished.alike {disk : Disk} {q : Place} {walked walked' : Disk → Except Reason Place}
    {result result' : Except Reason Place}
    (hsame : ∀ other, Vanished q disk other → walked other = walked' other)
    (h : (∀ other, Vanished q disk other → walked' other = result) ∨
      ∀ other, Vanished q disk other → walked' other = result') :
    (∀ other, Vanished q disk other → walked other = result) ∨
      ∀ other, Vanished q disk other → walked other = result' :=
  h.imp (fun hall other hother => (hsame other hother).trans (hall other hother))
    fun hall other hother => (hsame other hother).trans (hall other hother)

/-- When a place vanishes, a walk to it still leads there, or comes by there and goes nowhere, and
so does a walk to another place that is taken, if the one that vanishes is no link; which of the two
it is does not depend on what else there is. -/
theorem walk_vanished {disk : Disk} {q p : Place} {through : Bool} {links : Nat} {here : Place}
    {names : List Text} (hend : p = q ∨
      (∀ target, disk.get? q ≠ some (.link target)) ∧ disk.get? p ≠ none)
    (h : walk disk through links here names = .ok p) :
    (∀ other, Vanished q disk other → walk other through links here names = .ok p) ∨
      (∀ other, Vanished q disk other → walk other through links here names = .error .missing) := by
  -- At the name of the place the walk ends well if it is to go no further.
  have hnamed : ∀ {links here name rest}, here ≠ q → LooksUp disk here name → here ++ [name] = q →
      (rest = [] → p = q) →
      (∀ other, Vanished q disk other → walk other through links here (name :: rest) = .ok p) ∨
        ∀ other, Vanished q disk other →
          walk other through links here (name :: rest) = .error .missing := by
    rintro links here name rest hq hlooks rfl hp
    have hfree : ∀ other, Vanished (here ++ [name]) disk other →
        walk other through links here (name :: rest) =
          if rest.isEmpty then .ok (here ++ [name]) else .error .missing :=
      fun other hother => walk_free (hother.looksUp hq hlooks) hother.gone
    rcases rest with _ | ⟨next, rest⟩
    · rw [hp rfl]
      exact .inl hfree
    · exact .inr hfree
  rw [walk_eq_ok] at h
  induction h with
  | arrived => exact .inl fun _ _ => walk_eq_ok.2 .arrived
  | @dot links here rest hhere _ ih =>
    by_cases hq : here = q
    · exact .inr fun other hother => walk_of_free (hq ▸ hother.gone)
    · exact Vanished.alike (fun other hother => walk_dot (hother.kept _ _ hq hhere)) ih
  | @up links here rest hhere _ ih =>
    by_cases hq : here = q
    · exact .inr fun other hother => walk_of_free (hq ▸ hother.gone)
    · exact Vanished.alike (fun other hother => walk_up (hother.kept _ _ hq hhere)) ih
  | @free links here name hlooks hfree hp =>
    by_cases hq : here = q
    · exact .inr fun other hother => walk_of_free (hq ▸ hother.gone)
    have hpq : p = q := hend.resolve_right fun hnot => hnot.2 (hp ▸ hfree)
    exact hnamed hq hlooks (hp.symm.trans hpq) fun _ => hpq
  | @stop links here name target hlooks hlink hstays hp =>
    by_cases hq : here = q
    · exact .inr fun other hother => walk_of_free (hq ▸ hother.gone)
    by_cases hnext : here ++ [name] = q
    · exact hnamed hq hlooks hnext fun _ => hp.trans hnext
    subst hstays hp
    exact .inl fun other hother =>
      walk_stop (hother.looksUp hq hlooks) (hother.kept _ _ hnext hlink)
  | @follow links here name target rest hlooks hlink hmore _ ih =>
    by_cases hq : here = q
    · exact .inr fun other hother => walk_of_free (hq ▸ hother.gone)
    by_cases hnext : here ++ [name] = q
    · exact hnamed hq hlooks hnext fun _ =>
        hend.resolve_right fun hnot => hnot.1 target (hnext ▸ hlink)
    exact Vanished.alike (fun other hother =>
      walk_follow (hother.looksUp hq hlooks) (hother.kept _ _ hnext hlink) hmore) ih
  | @down links here name rest entry hlooks hentry hnolink hdown ih =>
    by_cases hq : here = q
    · exact .inr fun other hother => walk_of_free (hq ▸ hother.gone)
    by_cases hnext : here ++ [name] = q
    · refine hnamed hq hlooks hnext ?_
      rintro rfl
      cases hdown
      exact hnext
    exact Vanished.alike (fun other hother =>
      walk_down (hother.looksUp hq hlooks) (hother.kept _ _ hnext hentry) hnolink) ih

/-- A walk to a place that has vanished since still leads there, or comes by there and goes
nowhere. -/
theorem walk_of_vanished {disk other : Disk} {q : Place}
    (hsame : ∀ p, p ≠ q → other.get? p = disk.get? p) (hgone : other.get? q = none)
    {through : Bool} {links : Nat} {here : Place} {names : List Text}
    (h : walk disk through links here names = .ok q) :
    walk other through links here names = .ok q ∨
      walk other through links here names = .error .missing := by
  have hvanished : Vanished q disk other :=
    ⟨fun p entry hp hentry => (hsame p hp).trans hentry, hgone⟩
  exact (walk_vanished (.inl rfl) h).imp (· other hvanished) (· other hvanished)

/-- What a walk sees of an entry: that it is a directory, that it is a file, or where it leads. -/
def seen : Entry → Option (Option Text)
  | .directory => none
  | .file .. => some none
  | .link target => some (some target)

/-- Every entry is still there, and is to a walk what it was. -/
def Extended (disk other : Disk) : Prop :=
  ∀ p entry, disk.get? p = some entry →
    ∃ entry', other.get? p = some entry' ∧ seen entry' = seen entry

/-- A directory stays one. -/
theorem Extended.directory {disk other : Disk} (h : Extended disk other) {p : Place}
    (hp : disk.get? p = some .directory) : other.get? p = some .directory := by
  obtain ⟨entry, hentry, hseen⟩ := h p _ hp
  cases entry with
  | directory => exact hentry
  | file => cases hseen
  | link => cases hseen

/-- A link stays one. -/
theorem Extended.link {disk other : Disk} (h : Extended disk other) {p : Place} {target : Text}
    (hp : disk.get? p = some (.link target)) : other.get? p = some (.link target) := by
  obtain ⟨entry, hentry, hseen⟩ := h p _ hp
  cases entry with
  | directory => cases hseen
  | file => cases hseen
  | link => cases hseen; exact hentry

/-- What is no link stays none. -/
theorem Extended.noLink {disk other : Disk} (h : Extended disk other) {p : Place} {entry : Entry}
    (hp : disk.get? p = some entry) (hnolink : entry.isLink = false) :
    ∃ entry', other.get? p = some entry' ∧ entry'.isLink = false := by
  obtain ⟨entry', hentry', hseen⟩ := h p entry hp
  refine ⟨entry', hentry', ?_⟩
  cases entry' with
  | directory => rfl
  | file => rfl
  | link =>
    cases entry with
    | directory => cases hseen
    | file => cases hseen
    | link => cases hnolink

/-- What is looked up is looked up also where entries have come. -/
theorem Extended.looksUp {disk other : Disk} (h : Extended disk other) {here : Place} {name : Text}
    (hlooks : LooksUp disk here name) : LooksUp other here name :=
  { hlooks with directory := h.directory hlooks.directory }

/-- Extensions of extensions are extensions. -/
theorem Extended.trans {disk middle other : Disk} (h : Extended disk middle)
    (h' : Extended middle other) : Extended disk other := by
  intro p entry hp
  obtain ⟨entry', hp', hseen⟩ := h p entry hp
  obtain ⟨entry'', hp'', hseen'⟩ := h' p entry' hp'
  exact ⟨entry'', hp'', hseen'.trans hseen⟩

/-- A walk that arrives does so, at the same place, on a disk where entries have only come, unless
the walk follows links at its end and one has come just there. -/
theorem walk_kept {disk other : Disk} (h : Extended disk other) {through : Bool}
    {links : Nat} {here p : Place} {names : List Text}
    (hend : through = true → disk.get? p = none → ∀ target, other.get? p ≠ some (.link target))
    (hwalk : walk disk through links here names = .ok p) :
    walk other through links here names = .ok p := by
  rw [walk_eq_ok] at hwalk ⊢
  induction hwalk with
  | arrived => exact .arrived
  | dot hhere _ ih => exact .dot (h.directory hhere) ih
  | up hhere _ ih => exact .up (h.directory hhere) ih
  | @free _ here name hlooks hfree hp =>
    have hlooks' := h.looksUp hlooks
    rcases hnew : other.get? (here ++ [name]) with _ | entry
    · exact .free hlooks' hnew hp
    -- Something has come where the walk ends; only a link that is followed would matter.
    cases entry with
    | directory => exact .down hlooks' hnew rfl (hp ▸ .arrived)
    | file => exact .down hlooks' hnew rfl (hp ▸ .arrived)
    | link target =>
      cases hthrough : through with
      | false => exact .stop hlooks' hnew rfl hp
      | true => exact absurd (hp ▸ hnew) (hend hthrough (hp ▸ hfree) target)
  | stop hlooks hlink hstays hp => exact .stop (h.looksUp hlooks) (h.link hlink) hstays hp
  | follow hlooks hlink hmore _ ih => exact .follow (h.looksUp hlooks) (h.link hlink) hmore ih
  | down hlooks hentry hnolink _ ih =>
    obtain ⟨entry', hentry', hnolink'⟩ := h.noLink hentry hnolink
    exact .down (h.looksUp hlooks) hentry' hnolink' ih

/-- A walk that arrives does so, at the same place, on a disk where entries have only come, unless
a link has come just where it ends. -/
theorem walk_of_extended {disk other : Disk} (h : Extended disk other) {through : Bool}
    {links : Nat} {here p : Place} {names : List Text}
    (hend : disk.get? p = none → ∀ target, other.get? p ≠ some (.link target))
    (hwalk : walk disk through links here names = .ok p) :
    walk other through links here names = .ok p :=
  walk_kept h (fun _ => hend) hwalk

/-- A path whose last link is not followed leads to the same place on a disk where entries have only
come. -/
theorem locate_kept {disk other : Disk} (h : Extended disk other) {path : Path} {place : Place}
    (hlocate : disk.locate false path = .ok place) : other.locate false path = .ok place := by
  obtain ⟨hgivable, hwalk⟩ := walk_of_locate hlocate
  exact locate_of_walk hgivable (walk_kept h (by simp) hwalk)

/-- A path leads to the same place on a disk where entries have only come, unless a link has come
just there. -/
theorem locate_of_extended {disk other : Disk} (h : Extended disk other) {through : Bool}
    {path : Path} {place : Place}
    (hend : disk.get? place = none → ∀ target, other.get? place ≠ some (.link target))
    (hlocate : disk.locate through path = .ok place) :
    other.locate through path = .ok place := by
  obtain ⟨hgivable, hwalk⟩ := walk_of_locate hlocate
  exact locate_of_walk hgivable (walk_of_extended h hend hwalk)

/-- What a path is found to lead to it leads to on every disk that keeps the entries. -/
theorem find_of_extended {disk other : Disk} (h : Extended disk other) {through : Bool}
    {path : Path} {place : Place} {entry : Entry}
    (hfind : disk.find through path = .ok (place, entry)) :
    ∃ entry', other.find through path = .ok (place, entry') ∧ seen entry' = seen entry := by
  obtain ⟨hlocate, hget⟩ := find_eq_ok.1 hfind
  obtain ⟨entry', hget', hseen⟩ := h place entry hget
  have hend : disk.get? place = none → ∀ target, other.get? place ≠ some (.link target) := by
    rw [hget]
    rintro ⟨⟩
  exact ⟨entry', find_eq_ok.2 ⟨locate_of_extended h hend hlocate, hget'⟩, hseen⟩

/-- What has been checked to be found is a directory. -/
theorem find_directory_of_check {disk : Disk} {through : Bool} {path : Path} {place : Place}
    (h : (disk.find through path).toOption.any
      (fun (p, entry) => p == place && entry.isDirectory) = true) :
    disk.find through path = .ok (place, .directory) := by
  rcases hfind : disk.find through path with fault | ⟨p, entry⟩
  all_goals rw [hfind] at h
  · cases h
  simp only [Except.toOption, Option.any_some, Bool.and_eq_true, beq_iff_eq] at h
  obtain ⟨rfl, hdirectory⟩ := h
  cases entry with
  | directory => rfl
  | file | link => cases hdirectory

/-- A new entry at a free place leaves the others. -/
theorem extended_put {disk : Disk} {place : Place} (hfree : disk.get? place = none)
    (entry : Entry) : Extended disk (disk.put place entry) := by
  intro p old hold
  refine ⟨old, ?_, rfl⟩
  rw [get?_put_of_ne, hold]
  rintro rfl
  rw [hfree] at hold
  cases hold

/-! ## Links at the end -/

/-- A walk that ends at no link ends there also when links are followed at the end. -/
theorem walk_through {disk : Disk} {links : Nat} {here p : Place} {names : List Text}
    (hlink : ∀ target, disk.get? p ≠ some (.link target))
    (h : walk disk false links here names = .ok p) : walk disk true links here names = .ok p := by
  rw [walk_eq_ok] at h ⊢
  induction h with
  | arrived => exact .arrived
  | dot hhere _ ih => exact .dot hhere ih
  | up hhere _ ih => exact .up hhere ih
  | free hlooks hfree hp => exact .free hlooks hfree hp
  | stop hlooks hend _ hp => exact absurd (hp ▸ hend) (hlink _)
  | follow hlooks hexpanded _ _ ih => exact .follow hlooks hexpanded (.inr rfl) ih
  | down hlooks hentry hnolink _ ih => exact .down hlooks hentry hnolink ih

/-- Where a walk arrives that follows links at its end, one arrives that does not. -/
theorem walk_short {disk : Disk} {links : Nat} {here p : Place} {names : List Text}
    (h : walk disk true links here names = .ok p) :
    ∃ q, walk disk false links here names = .ok q ∧
      (q = p ∨ ∃ target, disk.get? q = some (.link target)) := by
  simp only [walk_eq_ok] at h ⊢
  induction h with
  | arrived => exact ⟨p, .arrived, .inl rfl⟩
  | dot hhere _ ih => exact ih.imp fun _ => And.imp_left (.dot hhere)
  | up hhere _ ih => exact ih.imp fun _ => And.imp_left (.up hhere)
  | free hlooks hfree hp => exact ⟨p, .free hlooks hfree hp, .inl rfl⟩
  | stop _ _ hfalse => cases hfalse
  | @follow _ here name target rest hlooks hlink _ _ ih =>
    rcases rest with _ | ⟨next, rest⟩
    · exact ⟨_, .stop hlooks hlink rfl rfl, .inr ⟨target, hlink⟩⟩
    · exact ih.imp fun _ => And.imp_left (.follow hlooks hlink (.inl (List.cons_ne_nil _ _)))
  | down hlooks hentry hnolink _ ih =>
    exact ih.imp fun _ => And.imp_left (.down hlooks hentry hnolink)

/-- The target of a link in a directory is followed from a directory. -/
theorem get?_targetStart {disk : Disk} {here : Place} (h : disk.get? here = some .directory)
    (target : Text) : disk.get? (targetStart here target) = some .directory := by
  unfold targetStart
  split
  · rfl
  · exact h

/-! ## Walks in two parts -/

/-- A walk along a first part of its names has arrived at an entry from where every longer walk goes
on, or no longer walk gets anywhere. -/
theorem walk_split (disk : Disk) (links : Nat) (here : Place) (names : List Text) :
    (∃ left ≤ links, ∃ p, walk disk true links here names = .ok p ∧ ∀ through rest, rest ≠ [] →
      walk disk through links here (names ++ rest) = walk disk through left p rest) ∨
    (∃ reason, (∀ p, walk disk true links here names = .ok p → disk.get? p = none) ∧
      ∀ through rest, rest ≠ [] →
        walk disk through links here (names ++ rest) = .error reason) := by
  -- The same for what stands behind a link carries over to the names in front of it.
  have hfollow : ∀ links : Nat,
      (∀ here names,
        (∃ left ≤ links, ∃ p, behind disk links true here names = .ok p ∧
          ∀ through rest, rest ≠ [] →
            behind disk links through here (names ++ rest) = walk disk through left p rest) ∨
        (∃ reason, (∀ p, behind disk links true here names = .ok p → disk.get? p = none) ∧
          ∀ through rest, rest ≠ [] →
            behind disk links through here (names ++ rest) = .error reason)) →
      ∀ names here,
        (∃ left ≤ links, ∃ p, walk disk true links here names = .ok p ∧ ∀ through rest, rest ≠ [] →
          walk disk through links here (names ++ rest) = walk disk through left p rest) ∨
        (∃ reason, (∀ p, walk disk true links here names = .ok p → disk.get? p = none) ∧
          ∀ through rest, rest ≠ [] →
            walk disk through links here (names ++ rest) = .error reason) := by
    intro links hbehind names
    simp only [walk_eq disk _ links]
    induction names with
    | nil =>
      intro here
      exact .inl ⟨links, Nat.le_refl _, here, followNames_nil here, fun through rest _ =>
        (walk_eq disk through links here rest).symm⟩
    | cons name names ih =>
      intro here
      simp only [List.cons_append]
      rcases hhere : disk.get? here with _ | entry
      · refine .inr ⟨.missing, ?_, fun through rest _ => followNames_of_free hhere _ _⟩
        intro p h
        rw [followNames_of_free hhere] at h
        cases h
      by_cases hdirectory : entry = .directory
      case neg =>
        have herror : ∀ through rest,
            followNames disk through (behind disk links through) here (name :: rest) =
              .error .notDirectory := by
          intro through rest
          rw [followNames]
          cases entry with
          | directory => exact absurd rfl hdirectory
          | file => simp only [hhere]
          | link => simp only [hhere]
        refine .inr ⟨.notDirectory, ?_, fun through rest _ => herror through _⟩
        intro p h
        rw [herror] at h
        cases h
      subst hdirectory
      by_cases hdot : name = Text.ofString "."
      · subst hdot
        simp only [followNames_dot hhere]
        exact ih here
      by_cases hup : name = Text.ofString ".."
      · subst hup
        simp only [followNames_up hhere]
        exact ih here.dropLast
      by_cases hlong : Utf8.losslessSize name > nameLimit
      · have herror : ∀ through rest,
            followNames disk through (behind disk links through) here (name :: rest) =
              .error .nameTooLong := by
          intro through rest
          rw [followNames]
          simp only [hhere, if_neg hdot, if_neg hup, if_pos hlong]
        refine .inr ⟨.nameTooLong, ?_, fun through rest _ => herror through _⟩
        intro p h
        rw [herror] at h
        cases h
      simp only [followNames_plain hhere ⟨hdot, hup⟩ (Nat.le_of_not_lt hlong)]
      rcases hnext : disk.get? (here ++ [name]) with _ | entry
      · refine .inr ⟨.missing, ?_, ?_⟩
        · intro p h
          dsimp only at h
          split at h
          · cases h
            exact hnext
          · cases h
        · intro through rest hrest
          dsimp only
          rw [if_neg (by simp [hrest])]
      cases entry with
      | directory => exact ih (here ++ [name])
      | file => exact ih (here ++ [name])
      | link target =>
        simp only [Bool.not_true, Bool.and_false, Bool.false_eq_true, if_false]
        have hgoes : ∀ through rest, rest ≠ [] →
            (if (names ++ rest).isEmpty && !through then Except.ok (here ++ [name])
              else behind disk links through (targetStart here target)
                (targetNames target ++ (names ++ rest))) =
            behind disk links through (targetStart here target)
              (targetNames target ++ names ++ rest) := by
          intro through rest hrest
          rw [if_neg (by simp [hrest]), List.append_assoc]
        rcases hbehind (targetStart here target) (targetNames target ++ names) with
          ⟨left, hle, p, hp, hwalk⟩ | ⟨reason, hp, hwalk⟩
        · refine .inl ⟨left, hle, p, hp, fun through rest hrest => ?_⟩
          rw [hgoes through rest hrest, hwalk through rest hrest]
        · refine .inr ⟨reason, hp, fun through rest hrest => ?_⟩
          rw [hgoes through rest hrest, hwalk through rest hrest]
  induction links generalizing here names with
  | zero =>
    refine hfollow 0 (fun here names => .inr ⟨.tooManyLinks, ?_, fun _ _ _ => rfl⟩) names here
    intro p h
    cases h
  | succ links ih =>
    refine hfollow (links + 1) (fun here names => ?_) names here
    rcases ih here names with ⟨left, hle, p, hp, hwalk⟩ | hstuck
    · exact .inl ⟨left, Nat.le_succ_of_le hle, p, hp, hwalk⟩
    · exact .inr hstuck

/-- A walk that goes on behind a first part of its names comes to a directory there. -/
theorem walk_append {disk : Disk} {through : Bool} {links : Nat} {here p : Place}
    {names rest : List Text} (hrest : rest ≠ [])
    (h : walk disk through links here (names ++ rest) = .ok p) :
    ∃ left ≤ links, ∃ q, walk disk true links here names = .ok q ∧
      disk.get? q = some .directory ∧ walk disk through left q rest = .ok p := by
  rcases walk_split disk links here names with ⟨left, hle, q, harrives, hgoes⟩ |
    ⟨reason, -, hstuck⟩
  · rw [hgoes _ _ hrest] at h
    obtain ⟨name, rest, rfl⟩ := List.exists_cons_of_ne_nil hrest
    exact ⟨left, hle, q, harrives, (walk_eq_ok.1 h).directory, h⟩
  · rw [hstuck _ _ hrest] at h
    cases h

end ProviderKit.Disk
