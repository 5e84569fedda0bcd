import Mathlib.Data.List.Chain
import Mathlib.Data.List.Nodup
import Mathlib.Logic.Relation
import ProviderKit.Archive.Filter
import ProviderKit.Proofs.Disk.RealPath

/-!
# Links that stay in their tree

A tree is `Portable` if its links lead, lexically, to places in it, and by no other link on the way.
While such a tree is copied entry by entry, the links that are there already are resolved to places
in the copy: each leads to one more link at most, at its end, so what is resolved is a chain of
links (`resolveWith_inside`), and no more links nest than there are in one (`Nests`). The chain may
lead into a loop; what is then left of a target counts from the root of the disk if a second slash
stands in front of it, and this is ruled out apart (`Settled`).
-/

namespace ProviderKit.Archive

open Disk (IsName IsPlain LeadsDown Usable Denotes saysNothing lexical resolveNames resolveWith
  traceWith writtenNames)

/-! ## Trees -/

/-- The places that names come by below a directory, taken lexically, each with the names behind
it. -/
def passes : List Text → List Text → List (Place × List Text)
  | _, [] => []
  | here, name :: rest =>
    if saysNothing name then passes here rest
    else if name = Text.ofString ".." then passes here.dropLast rest
    else (here ++ [name], rest) :: passes (here ++ [name]) rest

section Passes

variable {here rest : List Text} {name : Text}

/-- By a name that says nothing names come to no place. -/
theorem passes_idle (h : saysNothing name = true) :
    passes here (name :: rest) = passes here rest := by
  rw [passes.eq_def here (name :: rest)]
  exact if_pos h

/-- By two dots names come to no place either: they are above it. -/
theorem passes_up : passes here (Text.ofString ".." :: rest) = passes here.dropLast rest := by
  rw [passes.eq_def here (_ :: rest)]
  rfl

/-- By a name that leads down names come to a place. -/
theorem passes_down (h : LeadsDown name) :
    passes here (name :: rest) = (here ++ [name], rest) :: passes (here ++ [name]) rest := by
  rw [passes, if_neg (by simp [h.counts]), if_neg h.notUp]

end Passes

/-- A text that a link can have as its target. -/
structure IsTarget (target : Text) : Prop where
  nonempty : target ≠ []
  usable : Usable target
  canonical : Utf8.canonical target = target
  short : Utf8.losslessSize target < Disk.pathLimit

/-- There is a link. -/
def IsLink (disk : Disk) (p : Place) : Prop := ∃ target, disk.get? p = some (.link target)

/-- The tree below a place has names and targets as disks have them, no file with a second name, and
links that are relative, stay in the tree, and come by no other link before the last name of their
target. -/
structure Portable (disk : Disk) (place : Place) : Prop where
  names : ∀ x entry, disk.get? (place ++ x) = some entry → ∀ name ∈ x, IsName name
  single : ∀ x y, place ++ y ∈ disk.sharers (place ++ x) → y = x
  targets : ∀ x target, disk.get? (place ++ x) = some (.link target) → IsTarget target
  relative : ∀ x target, disk.get? (place ++ x) = some (.link target) →
    (Path.ofText target).isAbsolute = false
  inside : ∀ x target, disk.get? (place ++ x) = some (.link target) →
    (lexical x.dropLast (writtenNames target)).isSome = true
  direct : ∀ x target, disk.get? (place ++ x) = some (.link target) →
    ∀ y rest, (y, rest) ∈ passes x.dropLast (writtenNames target) → y ≠ x →
      IsLink disk (place ++ y) → ∀ name ∈ rest, saysNothing name = true

/-- The first place, in a tree, is that of a link by which the target of a link at the second one
comes. -/
def LeadsBy (disk : Disk) (place : Place) (y x : Place) : Prop :=
  IsLink disk (place ++ y) ∧ ∃ target rest, disk.get? (place ++ x) = some (.link target) ∧
    (y, rest) ∈ passes x.dropLast (writtenNames target)

/-- In no target of a tree two slashes follow a link that leads into a loop. -/
def Settled (disk : Disk) (place : Place) : Prop :=
  ∀ x target, disk.get? (place ++ x) = some (.link target) →
    ∀ y next rest, (y, [] :: next :: rest) ∈ passes x.dropLast (writtenNames target) →
      IsLink disk (place ++ y) → Acc (LeadsBy disk place) y

/-- Distinct links of a tree, each of which the one behind it leads by. -/
structure LinkChain (disk : Disk) (place : Place) (links : List Place) : Prop where
  distinct : links.Nodup
  linked : ∀ y ∈ links, IsLink disk (place ++ y)
  leads : links.IsChain (LeadsBy disk place)

/-- The links of a tree nest at most as deep as the given number: no chain of them is longer. -/
def Nests (disk : Disk) (place : Place) (most : Nat) : Prop :=
  ∀ links, LinkChain disk place links → links.length ≤ most

/-- The links of a tree nest no deeper than there are entries on the disk. -/
theorem nests_of_few {disk : Disk} {most : Nat} (place : Place)
    (hfew : disk.entries.length ≤ most) : Nests disk place most := by
  intro links hchain
  have hdistinct : (links.map (place ++ ·)).Nodup :=
    List.Nodup.map (fun _ _ heq => List.append_cancel_left heq) hchain.distinct
  have hcount := Disk.length_le_of_links hdistinct fun p hp => by
    obtain ⟨y, hy, rfl⟩ := List.mem_map.1 hp
    exact hchain.linked y hy
  rw [List.length_map] at hcount
  exact hcount.trans hfew

/-! ## Trees that can be checked -/

/-- Whether a text can be a target. -/
def isTarget (target : Text) : Bool :=
  !target.isEmpty && Disk.isEncodable target && !Disk.hasNull target &&
    Utf8.canonical target == target && decide (Utf8.losslessSize target < Disk.pathLimit)

/-- A text can be checked to be a target. -/
theorem isTarget_of_check {target : Text} (h : isTarget target = true) : IsTarget target := by
  simp only [isTarget, Bool.and_eq_true, Bool.not_eq_true', beq_iff_eq, decide_eq_true_eq,
    List.isEmpty_eq_false_iff] at h
  obtain ⟨⟨⟨⟨hnonempty, hencodable⟩, hnull⟩, hcanonical⟩, hshort⟩ := h
  exact ⟨hnonempty, ⟨hencodable, hnull⟩, hcanonical, hshort⟩

/-- Whether there is a link. -/
def isLink (disk : Disk) (p : Place) : Bool := (disk.get? p).any Entry.isLink

/-- A link is found by a look. -/
theorem isLink_eq_true {disk : Disk} {p : Place} : isLink disk p = true ↔ IsLink disk p := by
  unfold isLink IsLink
  rcases disk.get? p with _ | entry
  · simp
  · cases entry <;> simp [Entry.isLink]

/-- Whether a link at names in a tree may have a target. -/
def isDirect (disk : Disk) (place x : Place) (target : Text) : Bool :=
  isTarget target && !(Path.ofText target).isAbsolute &&
    (lexical x.dropLast (writtenNames target)).isSome &&
    (passes x.dropLast (writtenNames target)).all fun (y, rest) =>
      y == x || !isLink disk (place ++ y) || rest.all saysNothing

/-- Whether the entries of the tree below a place are fit for it to be portable, and none of its
files is shared. -/
def isPortable (disk : Disk) (place : Place) : Bool :=
  disk.allBelow place (fun x entry => x.all Disk.isName && match entry with
    | .link target => isDirect disk place x target
    | _ => true) &&
  disk.shared.all (·.all fun p => !place.isPrefixOf p)

/-- A tree can be checked to be portable. -/
theorem portable_of_check {disk : Disk} {place : Place} (h : isPortable disk place = true) :
    Portable disk place := by
  rw [isPortable, Bool.and_eq_true] at h
  obtain ⟨hentries, hshared⟩ := h
  have hlink : ∀ x target, disk.get? (place ++ x) = some (.link target) →
      ((isTarget target = true ∧ (Path.ofText target).isAbsolute = false) ∧
        (lexical x.dropLast (writtenNames target)).isSome = true) ∧
      ∀ pass ∈ passes x.dropLast (writtenNames target),
        (pass.1 == x || !isLink disk (place ++ pass.1) || pass.2.all saysNothing) = true := by
    intro x target hget
    have hcheck := Disk.of_allBelow hentries hget
    rw [Bool.and_eq_true] at hcheck
    simpa only [isDirect, Bool.and_eq_true, Bool.not_eq_true', List.all_eq_true] using hcheck.2
  refine ⟨fun x entry hget name hname => ?_, fun x y hy => ?_, fun x target hget => ?_,
    fun x target hget => ?_, fun x target hget => ?_, fun x target hget y rest hy hne hlinky => ?_⟩
  · have hcheck := Disk.of_allBelow hentries hget
    rw [Bool.and_eq_true] at hcheck
    exact Disk.isName_of_check (List.all_eq_true.1 hcheck.1 name hname)
  · rcases Disk.sharers_eq disk (place ++ x) with halone | hgroup
    · rw [halone, List.mem_singleton] at hy
      exact List.append_cancel_left hy
    · have hapart := List.all_eq_true.1 (List.all_eq_true.1 hshared _ hgroup) _
        (Disk.mem_sharers_self disk (place ++ x))
      rw [List.isPrefixOf_iff_prefix.2 (List.prefix_append _ _)] at hapart
      cases hapart
  · exact isTarget_of_check (hlink x target hget).1.1.1
  · exact (hlink x target hget).1.1.2
  · exact (hlink x target hget).1.2
  · have hpass := (hlink x target hget).2 (y, rest) hy
    rw [isLink_eq_true.2 hlinky, Bool.not_true, Bool.or_false, Bool.or_eq_true, beq_iff_eq] at hpass
    exact List.all_eq_true.1 (hpass.resolve_left hne)

/-- Whether all links that the link at names in a tree leads by lead on, the given number of times
at most. -/
def leadsOut (disk : Disk) (place : Place) : Nat → Place → Bool
  | 0, _ => false
  | links + 1, x =>
    match disk.get? (place ++ x) with
    | some (.link target) => (passes x.dropLast (writtenNames target)).all fun (y, _) =>
        !isLink disk (place ++ y) || leadsOut disk place links y
    | _ => true

/-- A link that leads on leads into no loop. -/
theorem acc_of_leadsOut {disk : Disk} {place : Place} {links : Nat} {x : Place}
    (h : leadsOut disk place links x = true) : Acc (LeadsBy disk place) x := by
  induction links generalizing x with
  | zero => cases h
  | succ links ih =>
    refine .intro x fun y hy => ?_
    obtain ⟨hlink, target, rest, hget, hmem⟩ := hy
    rw [leadsOut, hget] at h
    have hpass := List.all_eq_true.1 h _ hmem
    dsimp only at hpass
    rw [isLink_eq_true.2 hlink, Bool.not_true, Bool.false_or] at hpass
    exact ih hpass

/-- Whether the links that two slashes follow in the targets of a tree lead on. -/
def isSettled (disk : Disk) (place : Place) : Bool :=
  disk.allBelow place fun x entry => match entry with
    | .link target => (passes x.dropLast (writtenNames target)).all fun (y, rest) =>
        !isLink disk (place ++ y) || match rest with
          | [] :: _ :: _ => leadsOut disk place disk.entries.length y
          | _ => true
    | _ => true

/-- A tree can be checked to be settled. -/
theorem settled_of_check {disk : Disk} {place : Place} (h : isSettled disk place = true) :
    Settled disk place := by
  intro x target hget y next rest hy hlink
  have hpass := List.all_eq_true.1 (Disk.of_allBelow h hget) _ hy
  dsimp only at hpass
  rw [isLink_eq_true.2 hlink] at hpass
  exact acc_of_leadsOut hpass

/-- The links that the second disk holds below a directory are links of the tree below the first
place. -/
structure PartOf (disk : Disk) (place : Place) (other : Disk) (target : Place) : Prop where
  wellFormed : other.WellFormed
  directory : other.get? target = some .directory
  names : ∀ name ∈ target, IsName name
  links : ∀ x text, x ≠ [] → other.get? (target ++ x) = some (.link text) →
    disk.get? (place ++ x) = some (.link text)

/-! ## Names below a directory -/

/-- A name that a target is made of. -/
structure IsPiece (name : Text) : Prop where
  usable : Usable name
  canonical : Utf8.canonical name = name

/-- A text that starts with a slash is an absolute path. -/
theorem isAbsolute_slash (t : Text) : (Path.ofText (.char '/' :: t)).isAbsolute = true := by
  unfold Path.isAbsolute Path.ofText Path.rootOf
  split <;> simp_all

/-- The names of a relative target are pieces. -/
theorem IsTarget.piece {target name : Text} (h : IsTarget target)
    (hrelative : (Path.ofText target).isAbsolute = false) (hname : name ∈ writtenNames target) :
    IsPiece name := by
  refine ⟨Disk.usable_of_mem_writtenNames h.usable hname, ?_⟩
  have hslash : ¬ target.head? = some (.char '/') := by
    intro hslash
    cases target with
    | nil => cases hslash
    | cons c target =>
      obtain rfl : c = .char '/' := by simpa using hslash
      rw [isAbsolute_slash] at hrelative
      cases hrelative
  rw [writtenNames, if_neg hslash] at hname
  exact Utf8.canonical_of_mem_split (b := 0x2F) (by decide) (by decide) h.canonical hname

/-- A name of an entry is a piece that leads down. -/
theorem piece_of_isName {name : Text} (h : IsName name) : IsPiece name ∧ LeadsDown name :=
  ⟨⟨h.usable, h.canonical⟩, Disk.leadsDown_of_isName (h.canonical.symm ▸ h)⟩

/-- Names lead down from a directory by no link. -/
structure Way (disk : Disk) (target : Place) (here : List Text) : Prop where
  names : ∀ name ∈ here, IsPiece name ∧ LeadsDown name
  clear : ∀ q, q <+: here → ¬ IsLink disk (target ++ q)

namespace Way

variable {disk other : Disk} {place target : Place} {real here : List Text}

/-- One name less leads down too. -/
theorem dropLast (h : Way other target here) : Way other target here.dropLast :=
  ⟨fun name hname => h.names name (List.dropLast_subset _ hname),
    fun q hq => h.clear q (hq.trans (List.dropLast_prefix here))⟩

/-- Names lead down to a directory by no link. -/
theorem of_directory (hwf : other.WellFormed) (hnames : ∀ name ∈ here, IsName name)
    (h : other.get? (target ++ here) = some .directory) : Way other target here := by
  refine ⟨fun name hname => piece_of_isName (hnames name hname), fun q hq => ?_⟩
  rintro ⟨text, hlink⟩
  obtain ⟨rest, rfl⟩ := hq
  by_cases hrest : rest = []
  · rw [hrest, List.append_nil, hlink] at h
    cases h
  · have hnot : other.get? (target ++ q) ≠ some .directory := by
      rw [hlink]
      simp
    have hbelow := hwf.below hnot hrest
    rw [List.append_assoc, h] at hbelow
    cases hbelow

/-- A name more leads down if there is no link. -/
theorem concat (h : Way other target here) {name : Text} (hpiece : IsPiece name)
    (hdown : LeadsDown name)
    (hlink : ¬ IsLink other (target ++ (here ++ [name]))) : Way other target (here ++ [name]) := by
  refine ⟨fun n hn => ?_, fun q hq => ?_⟩
  · rcases List.mem_append.1 hn with hold | hnew
    · exact h.names n hold
    · exact List.mem_singleton.1 hnew ▸ ⟨hpiece, hdown⟩
  · rcases List.prefix_concat_iff.1 hq with rfl | hold
    · exact hlink
    · exact h.clear q hold

/-- The names lead lexically where they lead. -/
theorem lexical_eq (h : Way other target here) : lexical [] here = some here :=
  Disk.lexical_downs fun name hname => (h.names name hname).2

variable (hpart : PartOf disk place other target) (hreal : Denotes real target)
include hpart hreal

/-- No link is at a place on the way from the root. -/
theorem clear_all (h : Way other target here) {q : Place} (hq : q <+: target ++ here) :
    ¬ IsLink other q := by
  rintro ⟨text, hlink⟩
  rcases List.prefix_or_prefix_of_prefix hq (List.prefix_append target here) with hroot | hbelow
  · obtain ⟨below, rfl⟩ := hroot
    by_cases hbelow : below = []
    · rw [hbelow, List.append_nil] at hpart
      rw [hpart.directory] at hlink
      cases hlink
    · have hnot : other.get? q ≠ some .directory := by
        rw [hlink]
        simp
      have hfree := hpart.wellFormed.below hnot hbelow
      rw [hpart.directory] at hfree
      cases hfree
  · obtain ⟨rest, rfl⟩ := hbelow
    exact h.clear rest ((List.prefix_append_right_inj target).1 hq) ⟨text, hlink⟩

/-- What is behind one more name is found, or the name is kept. -/
theorem find (h : Way other target here) {name : Text} (hpiece : IsPiece name)
    (hdown : LeadsDown name) :
    (∃ fault, other.find false ⟨.single, real ++ here ++ [name]⟩ = .error fault ∧
        fault.isPathText = false) ∨
      ∃ entry, other.find false ⟨.single, real ++ here ++ [name]⟩ =
        .ok (target ++ (here ++ [name]), entry) := by
  have hread : (real ++ here ++ [name]).map Utf8.canonical = target ++ (here ++ [name]) := by
    have hhere : here.map Utf8.canonical = here := by
      calc here.map Utf8.canonical
          = here.map id := List.map_congr_left fun n hn => (h.names n hn).1.canonical
        _ = here := List.map_id _
    rw [List.map_append, List.map_append, hreal.read, hhere, List.map_singleton, hpiece.canonical,
      List.append_assoc]
  have husable : ∀ n ∈ real ++ here ++ [name], Usable n := by
    intro n hn
    rcases List.mem_append.1 hn with hold | hnew
    · rcases List.mem_append.1 hold with hroot | hbelow
      · exact hreal.usable n hroot
      · exact (h.names n hbelow).1.usable
    · exact List.mem_singleton.1 hnew ▸ hpiece.usable
  have hplains : ∀ n ∈ (real ++ here ++ [name]).map Utf8.canonical, IsPlain n := by
    intro n hn
    rw [hread] at hn
    rcases List.mem_append.1 hn with hroot | hbelow
    · exact (hpart.names n hroot).plain
    rcases List.mem_append.1 hbelow with hold | hnew
    · exact (h.names n hold).2.plain
    · exact List.mem_singleton.1 hnew ▸ hdown.plain
  have hfind := Disk.find_straight other husable
    (fun n hn => hplains _ (List.mem_map_of_mem hn)) fun q hq hne text hlink => by
      rw [hread, ← List.append_assoc] at hq hne
      have hon := (List.prefix_concat_iff.1 hq).resolve_left hne
      exact h.clear_all hpart hreal hon ⟨text, hlink⟩
  rwa [hread] at hfind

end Way

/-! ## Chains of links -/

variable {disk other : Disk} {place target : Place} {real here names : List Text} {depth : Nat}
  {links : List Place}

/-- What is not reached from itself is where it is accessible. -/
theorem not_reaches_self {y : Place} (h : Acc (LeadsBy disk place) y) :
    ¬ Relation.TransGen (LeadsBy disk place) y y := by
  have hacc := h.transGen
  clear h
  induction hacc with
  | intro y _ ih => exact fun hself => ih y hself hself

/-- Links of the tree that are being resolved, as many as the depth that is gone. -/
structure Following (other : Disk) (target : Place) (real : List Text) (depth : Nat)
    (links : List Place) : Prop where
  distinct : links.Nodup
  found : ∀ y ∈ links, ∃ text,
    other.find false ⟨.single, real ++ y⟩ = .ok (target ++ y, .link text)
  deep : other.entries.length < depth + links.length

/-- As long as there are fewer links than entries the depth is not used up. -/
theorem Following.depth_ne_zero (h : Following other target real depth links) : depth ≠ 0 := by
  have hdistinct : (links.map (target ++ ·)).Nodup :=
    List.Nodup.map (fun _ _ heq => List.append_cancel_left heq) h.distinct
  have hcount := Disk.length_le_of_links hdistinct fun p hp => by
    obtain ⟨y, hy, rfl⟩ := List.mem_map.1 hp
    obtain ⟨text, hfound⟩ := h.found y hy
    exact ⟨text, (Disk.find_eq_ok.1 hfound).2⟩
  rw [List.length_map] at hcount
  have := h.deep
  omega

/-- A link that is found comes to be resolved. -/
theorem Following.push (h : Following other target real (depth + 1) links) {y : Place} {text : Text}
    (hnew : y ∉ links)
    (hfound : other.find false ⟨.single, real ++ y⟩ = .ok (target ++ y, .link text)) :
    Following other target real depth (y :: links) := by
  refine ⟨List.nodup_cons.2 ⟨hnew, h.distinct⟩, fun z hz => ?_, ?_⟩
  · rcases List.mem_cons.1 hz with rfl | hold
    · exact ⟨text, hfound⟩
    · exact h.found z hold
  · have := h.deep
    rw [List.length_cons]
    omega

/-- The links that are being resolved are known by their paths. -/
theorem contains_pending (real : List Text) (links : List Place) (y : Place) :
    (links.map fun z => (⟨.single, real ++ z⟩ : Path)).contains ⟨.single, real ++ y⟩ =
      decide (y ∈ links) := by
  rw [Bool.eq_iff_iff, List.contains_iff_mem, decide_eq_true_eq, List.mem_map]
  constructor
  · rintro ⟨z, hz, heq⟩
    exact List.append_cancel_left (congrArg Path.names heq) ▸ hz
  · exact fun hy => ⟨y, hy, rfl⟩

/-- Names stay in the tree, and come by a link that is there only at their end, or by one that is
being resolved. Two slashes follow a link only if it leads into no loop. The links that are being
resolved are a chain that has led to every link that the names come by. -/
structure Course (disk : Disk) (place : Place) (other : Disk) (target : Place) (links : List Place)
    (here names : List Text) : Prop where
  stays : (lexical here names).isSome = true
  pieces : ∀ name ∈ names, IsPiece name
  last : ∀ y rest, (y, rest) ∈ passes here names → IsLink other (target ++ y) → y ∉ links →
    ∀ name ∈ rest, saysNothing name = true
  settled : ∀ y next rest, (y, [] :: next :: rest) ∈ passes here names →
    IsLink other (target ++ y) → Acc (LeadsBy disk place) y
  chain : ∀ y rest, (y, rest) ∈ passes here names → IsLink other (target ++ y) → ∀ z ∈ links,
    Relation.TransGen (LeadsBy disk place) y z
  chained : LinkChain disk place links
  first : ∀ y rest, (y, rest) ∈ passes here names → IsLink other (target ++ y) →
    ∀ z ∈ links.head?, LeadsBy disk place y z

/-- A link that is there is one of the tree. -/
theorem PartOf.link (h : PartOf disk place other target) {y : Place} {text : Text}
    (hlink : other.get? (target ++ y) = some (.link text)) :
    disk.get? (place ++ y) = some (.link text) := by
  refine h.links y _ ?_ hlink
  rintro rfl
  rw [List.append_nil, h.directory] at hlink
  cases hlink

/-- A link that is there, and by which the target of a link of the tree comes, is one that this
leads by. -/
theorem PartOf.leadsBy (h : PartOf disk place other target) {y z : Place} {text : Text}
    {rest : List Text} (hentry : disk.get? (place ++ y) = some (.link text))
    (hz : (z, rest) ∈ passes y.dropLast (writtenNames text)) (hlinkz : IsLink other (target ++ z)) :
    LeadsBy disk place z y := by
  obtain ⟨t, ht⟩ := hlinkz
  exact ⟨⟨t, h.link ht⟩, text, rest, hentry, hz⟩

/-- No links are a chain. -/
theorem LinkChain.nil : LinkChain disk place [] := ⟨List.nodup_nil, by simp, .nil⟩

/-! ## Courses that are taken -/

namespace Course

/-- The target of a link of the tree takes a course in it, if the link is not there or is being
resolved. -/
theorem of_target (hportable : Portable disk place) (hsettled : Settled disk place)
    (hpart : PartOf disk place other target) {y : Place} {text : Text}
    (hentry : disk.get? (place ++ y) = some (.link text))
    (hself : IsLink other (target ++ y) → y ∈ links)
    (hchain : ∀ z ∈ links, z = y ∨ Relation.TransGen (LeadsBy disk place) y z)
    (hlinks : LinkChain disk place links) (hfirst : ∀ z ∈ links.head?, z = y) :
    Course disk place other target links y.dropLast (writtenNames text) := by
  refine ⟨hportable.inside y text hentry, fun name hname => ?_, fun z rest hz hlinkz hnew => ?_,
    fun z next rest hz hlinkz => ?_, fun z rest hz hlinkz w hw => ?_, hlinks,
    fun z rest hz hlinkz w hw => hfirst w hw ▸ hpart.leadsBy hentry hz hlinkz⟩
  · exact (hportable.targets y text hentry).piece (hportable.relative y text hentry) hname
  · have hne : z ≠ y := by
      rintro rfl
      exact hnew (hself hlinkz)
    obtain ⟨hlinkz', -⟩ := hpart.leadsBy hentry hz hlinkz
    exact hportable.direct y text hentry z rest hz hne hlinkz'
  · obtain ⟨hlinkz', -⟩ := hpart.leadsBy hentry hz hlinkz
    exact hsettled y text hentry z next rest hz hlinkz'
  · have hleads := hpart.leadsBy hentry hz hlinkz
    rcases hchain w hw with rfl | hold
    · exact .single hleads
    · exact .head hleads hold

/-- The name of an entry takes a course from its directory. -/
theorem of_name {name : Text} (hname : IsName name) :
    Course disk place other target [] here [name] := by
  obtain ⟨hpiece, hdown⟩ := piece_of_isName hname
  have hpasses : passes here [name] = [(here ++ [name], [])] := by
    rw [passes_down hdown, passes]
  refine ⟨?_, by simpa using hpiece, fun y rest hy => ?_, fun y next rest hy => ?_, by simp,
    .nil, by simp⟩
  · rw [Disk.lexical_down hdown, lexical]
    rfl
  · rw [hpasses, List.mem_singleton] at hy
    cases hy
    simp
  · rw [hpasses, List.mem_singleton] at hy
    cases hy

/-- A slash in front changes no course. -/
theorem slash (h : Course disk place other target links here names) :
    Course disk place other target links here ([] :: names) := by
  have hidle : saysNothing [] = true := rfl
  refine ⟨?_, fun name hname => ?_, ?_, ?_, ?_, h.chained, ?_⟩
  · rw [Disk.lexical_idle hidle]
    exact h.stays
  · rcases List.mem_cons.1 hname with rfl | hrest
    · exact ⟨⟨rfl, rfl⟩, rfl⟩
    · exact h.pieces name hrest
  all_goals rw [passes_idle hidle]
  · exact h.last
  · exact h.settled
  · exact h.chain
  · exact h.first

/-- Behind a first name the course goes on. -/
theorem tail {name : Text} {next : List Text}
    (h : Course disk place other target links here (name :: names))
    (hlexical : lexical here (name :: names) = lexical next names)
    (hpasses : passes next names ⊆ passes here (name :: names)) :
    Course disk place other target links next names :=
  ⟨hlexical ▸ h.stays, fun n hn => h.pieces n (List.mem_cons_of_mem _ hn),
    fun y rest hy => h.last y rest (hpasses hy), fun y n rest hy => h.settled y n rest (hpasses hy),
    fun y rest hy => h.chain y rest (hpasses hy), h.chained,
    fun y rest hy => h.first y rest (hpasses hy)⟩

/-- By a link that is new the chain of those that are being resolved gets longer. -/
theorem push (h : Course disk place other target links here names) {y : Place}
    {rest : List Text} (hy : (y, rest) ∈ passes here names) (hlink : IsLink other (target ++ y))
    (hlink' : IsLink disk (place ++ y)) (hnew : y ∉ links) : LinkChain disk place (y :: links) := by
  refine ⟨List.nodup_cons.2 ⟨hnew, h.chained.distinct⟩, ?_, ?_⟩
  · rintro z (_ | ⟨_, hz⟩)
    · exact hlink'
    · exact h.chained.linked z hz
  · exact h.chained.leads.cons (h.first y rest hy hlink)

variable {name : Text} {rest : List Text}

/-- The names come by the place of the first one, if that leads down. -/
theorem first_passed (here rest : List Text) (hdown : LeadsDown name) :
    (here ++ [name], rest) ∈ passes here (name :: rest) := by
  rw [passes_down hdown]
  exact List.mem_cons_self

/-- What is left behind a link that leads into a loop stays below. -/
theorem leftAfter_eq (h : Course disk place other target links here (name :: rest))
    (hdown : LeadsDown name) (hlink : IsLink other (target ++ (here ++ [name])))
    (hloop : ¬ Acc (LeadsBy disk place) (here ++ [name])) (kept : List Text) :
    Disk.leftAfter kept rest = kept ++ rest := by
  unfold Disk.leftAfter
  split
  next next more =>
    -- Two slashes follow the link, so it is settled that it leads into no loop.
    exact absurd (h.settled _ _ _ (first_passed _ _ hdown) hlink) hloop
  next => rfl

end Course

/-! ## Resolving along a course -/

/-- Names that say nothing are all passed over. -/
theorem traceNames_idles {pending known : List Path}
    {trace : List Path → Path → List Text → List Text → Disk.Trace}
    (h : ∀ name ∈ names, saysNothing name = true) :
    Disk.traceNames other pending trace known here names =
      { outcome := .ok (here, true), known } := by
  induction names with
  | nil => rw [Disk.traceNames]
  | cons name names ih =>
    rw [Disk.traceNames_idle (h name List.mem_cons_self)]
    exact ih fun n hn => h n (List.mem_cons_of_mem _ hn)

/-- Names that say nothing are all passed over. -/
theorem resolveNames_idles {pending : List Path}
    {expand : Path → List Text → List Text → Except Disk.Fault Disk.Resolved}
    (h : ∀ name ∈ names, saysNothing name = true) :
    resolveNames other pending expand here names = .ok (here, true) := by
  induction names with
  | nil => rw [resolveNames]
  | cons name names ih =>
    rw [Disk.resolveNames_idle (h name List.mem_cons_self)]
    exact ih fun n hn => h n (List.mem_cons_of_mem _ hn)

/-- Names below the directory with the real path are resolved to names below it, through links that
nest no deeper than those of the tree; if they end in a loop, then they come by a link that leads
into one. -/
def Inside (disk : Disk) (place : Place) (other : Disk) (target : Place) (real : List Text)
    (depth : Nat) (links : List Place) (here names : List Text) : Prop :=
  ∃ e arrived, resolveWith other depth (links.map fun y => ⟨.single, real ++ y⟩) (real ++ here)
      names = .ok (real ++ e, arrived) ∧
    (lexical [] e).isSome = true ∧
    (arrived = false → ∃ y rest, (y, rest) ∈ passes here names ∧ IsLink other (target ++ y) ∧
      ¬ Acc (LeadsBy disk place) y) ∧
    ∀ most, Nests disk place most → ∀ known,
      (traceWith other depth (links.map fun y => ⟨.single, real ++ y⟩) known (real ++ here)
        names).levels + links.length ≤ most

/-- Names are resolved to a place in the tree if they are behind their first one. -/
theorem Inside.of_next {name : Text} {next : List Text}
    (h : Inside disk place other target real depth links next names)
    (hpasses : passes next names ⊆ passes here (name :: names))
    (htrace : ∀ known, traceWith other depth (links.map fun y => ⟨.single, real ++ y⟩) known
        (real ++ here) (name :: names) =
      traceWith other depth (links.map fun y => ⟨.single, real ++ y⟩) known (real ++ next) names) :
    Inside disk place other target real depth links here (name :: names) := by
  obtain ⟨e, arrived, hresolved, hstays, hends, hlevels⟩ := h
  refine ⟨e, arrived, ?_, hstays, fun hfalse => ?_, fun most hnests known => ?_⟩
  · rw [← Disk.outcome_traceWith _ _ _ [], htrace, Disk.outcome_traceWith, hresolved]
  · obtain ⟨y, more, hy, hlink⟩ := hends hfalse
    exact ⟨y, more, hpasses hy, hlink⟩
  · rw [htrace]
    exact hlevels most hnests known

/-- A link with nothing behind it nests one level deeper than its target, at most. -/
theorem levels_of_target {name text : Text} {rest : List Text} (hdown : LeadsDown name) {q : Place}
    (hfound : other.find false ⟨.single, real ++ here ++ [name]⟩ = .ok (q, .link text))
    (hidle : ∀ n ∈ rest, saysNothing n = true) {known : List Path} {most : Nat}
    (hmost : links.length + 1 ≤ most)
    (htarget : (traceWith other depth (((here ++ [name]) :: links).map fun y =>
        ⟨.single, real ++ y⟩) known (Disk.targetStart (real ++ here) text)
        (Disk.writtenNames text)).levels + (links.length + 1) ≤ most) :
    (traceWith other (depth + 1) (links.map fun y => ⟨.single, real ++ y⟩) known (real ++ here)
      (name :: rest)).levels + links.length ≤ most := by
  rw [List.map_cons, ← List.append_assoc] at htarget
  rw [Disk.traceWith_eq]
  refine Nat.add_le_of_le_sub (by omega) (Disk.levels_traceNames_link hdown hfound
    (fun _ => ?_) fun after names _ => ?_)
  · exact Nat.lt_sub_of_add_lt (by
      rw [← Nat.add_assoc] at htarget
      exact Nat.lt_of_succ_le htarget)
  · rw [traceNames_idles hidle]
    exact Nat.zero_le _

section AtLink

variable {name text : Text} {rest : List Text} (hway : Way other target here)
  (hdown : LeadsDown name) (hcourse : Course disk place other target links here (name :: rest))
include hway hdown hcourse

/-- A link that is being resolved leads into a loop: it is kept, and so is the rest. -/
theorem inside_of_loop (hfound : other.find false ⟨.single, real ++ here ++ [name]⟩ =
      .ok (target ++ (here ++ [name]), .link text)) (hloop : here ++ [name] ∈ links) :
    Inside disk place other target real depth links here (name :: rest) := by
  have hlink : IsLink other (target ++ (here ++ [name])) := ⟨text, (Disk.find_eq_ok.1 hfound).2⟩
  have hpassed := Course.first_passed here rest hdown
  have hnot : ¬ Acc (LeadsBy disk place) (here ++ [name]) := fun hacc =>
    not_reaches_self hacc (hcourse.chain _ _ hpassed hlink _ hloop)
  have hlexical : (lexical [] (here ++ name :: rest)).isSome = true := by
    rw [Disk.lexical_append, hway.lexical_eq]
    exact hcourse.stays
  have hpending : (links.map fun z => (⟨.single, real ++ z⟩ : Path)).contains
      ⟨.single, real ++ here ++ [name]⟩ = true := by
    rw [List.append_assoc, contains_pending]
    simpa using hloop
  refine ⟨here ++ name :: rest, false, ?_, hlexical, fun _ => ⟨_, rest, hpassed, hlink, hnot⟩,
    fun most hnests known => ?_⟩
  · rw [Disk.resolveWith_eq, Disk.resolveNames_link hdown hfound, if_pos hpending,
      hcourse.leftAfter_eq hdown hlink hnot]
    simp only [List.append_assoc, List.singleton_append]
  · rw [Disk.traceWith_eq, Disk.traceNames_pending hdown hfound hpending, Nat.zero_add]
    exact hnests links hcourse.chained

/-- A link whose path is too long to be looked up is kept, and only slashes and dots follow it. -/
theorem inside_of_lost (hfollowing : Following other target real depth links)
    (hfault : ∃ fault, other.find false ⟨.single, real ++ here ++ [name]⟩ = .error fault ∧
      fault.isPathText = false)
    (hlink : IsLink other (target ++ (here ++ [name]))) :
    Inside disk place other target real depth links here (name :: rest) := by
  have hnew : here ++ [name] ∉ links := by
    intro hmem
    obtain ⟨fault, hfault, -⟩ := hfault
    obtain ⟨t, hfound⟩ := hfollowing.found _ hmem
    rw [← List.append_assoc, hfault] at hfound
    cases hfound
  have hrest := hcourse.last _ rest (Course.first_passed here rest hdown) hlink hnew
  have hlexical : (lexical [] (here ++ [name])).isSome = true := by
    rw [Disk.lexical_append, hway.lexical_eq, Option.bind_some, Disk.lexical_down hdown, lexical]
    rfl
  refine ⟨here ++ [name], true, ?_, hlexical, by simp, fun most hnests known => ?_⟩
  · rw [Disk.resolveWith_eq, Disk.resolveNames_kept hdown (.inl hfault), resolveNames_idles hrest,
      List.append_assoc]
  · rw [Disk.traceWith_eq, Disk.traceNames_kept hdown (.inl hfault), traceNames_idles hrest,
      Nat.zero_add]
    exact hnests links hcourse.chained

/-- At a link names are resolved to a place in the tree, if its target is. -/
theorem inside_of_link (hportable : Portable disk place) (hsettled : Settled disk place)
    (hpart : PartOf disk place other target)
    (hfollowing : Following other target real (depth + 1) links)
    (hfound : other.find false ⟨.single, real ++ here ++ [name]⟩ =
      .ok (target ++ (here ++ [name]), .link text))
    (hexpand : ∀ {links : List Place} {here names : List Text},
      Following other target real depth links → Way other target here →
        Course disk place other target links here names →
        Inside disk place other target real depth links here names) :
    Inside disk place other target real (depth + 1) links here (name :: rest) := by
  by_cases hloop : here ++ [name] ∈ links
  · exact inside_of_loop hway hdown hcourse hfound hloop
  have hget := (Disk.find_eq_ok.1 hfound).2
  have hlink : IsLink other (target ++ (here ++ [name])) := ⟨text, hget⟩
  have hpassed := Course.first_passed here rest hdown
  -- Behind a link that is new there is nothing that leads anywhere.
  have hidle := hcourse.last _ _ hpassed hlink hloop
  have hentry := hpart.link hget
  have hstart : Disk.targetStart (real ++ here) text = real ++ here := by
    rw [Disk.targetStart, hportable.relative _ _ hentry]
    rfl
  have hfollowing' := hfollowing.push hloop (by rw [← List.append_assoc]; exact hfound)
  have hchain : ∀ z ∈ (here ++ [name]) :: links, z = here ++ [name] ∨
      Relation.TransGen (LeadsBy disk place) (here ++ [name]) z := by
    intro z hz
    exact (List.mem_cons.1 hz).imp_right (hcourse.chain _ _ hpassed hlink z)
  have hlinks := hcourse.push hpassed hlink ⟨text, hentry⟩ hloop
  have hcourse' := Course.of_target hportable hsettled hpart hentry
    (fun _ => List.mem_cons_self) hchain hlinks (by simp)
  rw [List.dropLast_concat] at hcourse'
  obtain ⟨e, arrived, hresolved, hlexical, hends, hlevels⟩ := hexpand hfollowing' hway hcourse'
  rw [List.map_cons, ← List.append_assoc] at hresolved
  have hnew : (links.map fun z => (⟨.single, real ++ z⟩ : Path)).contains
      ⟨.single, real ++ here ++ [name]⟩ = false := by
    rw [List.append_assoc, contains_pending]
    simpa using hloop
  have hbound : ∀ most, Nests disk place most → ∀ known,
      (traceWith other (depth + 1) (links.map fun y => ⟨.single, real ++ y⟩) known (real ++ here)
        (name :: rest)).levels + links.length ≤ most := by
    intro most hnests known
    have htarget := hlevels most hnests known
    rw [← hstart] at htarget
    exact levels_of_target hdown hfound hidle (hnests _ hlinks) htarget
  unfold Inside
  rw [Disk.resolveWith_eq, Disk.resolveNames_link hdown hfound, hnew, hstart]
  simp only [Disk.beyond, hresolved]
  cases arrived with
  | true => exact ⟨e, true, resolveNames_idles hidle, hlexical, by simp, hbound⟩
  | false =>
    -- The target has led into a loop, so the link does.
    obtain ⟨z, more, hz, hlinkz, hnot⟩ := hends rfl
    have hleads : LeadsBy disk place z (here ++ [name]) :=
      hpart.leadsBy hentry (by rw [List.dropLast_concat]; exact hz) hlinkz
    have hnot' : ¬ Acc (LeadsBy disk place) (here ++ [name]) := fun hacc => hnot (hacc.inv hleads)
    have hsome : (lexical [] (e ++ rest)).isSome = true := by
      obtain ⟨p, hp⟩ := Option.isSome_iff_exists.1 hlexical
      rw [Disk.lexical_append, hp, Option.bind_some, Disk.lexical_idles hidle]
      rfl
    refine ⟨e ++ rest, false, ?_, hsome, fun _ => ⟨_, rest, hpassed, hlink, hnot'⟩, hbound⟩
    dsimp only
    rw [if_neg Bool.false_ne_true, hcourse.leftAfter_eq hdown hlink hnot', List.append_assoc]

end AtLink

/-- In a part of a portable tree a course of names is resolved to a place in the tree. -/
theorem resolveWith_inside (hportable : Portable disk place) (hsettled : Settled disk place)
    (hpart : PartOf disk place other target) (hreal : Denotes real target)
    (hfollowing : Following other target real depth links) (hway : Way other target here)
    (hcourse : Course disk place other target links here names) :
    Inside disk place other target real depth links here names := by
  -- The outer induction is on the depth, one less for each link, the inner one on the names.
  induction depth generalizing links here names with
  | zero => exact absurd rfl hfollowing.depth_ne_zero
  | succ depth ihdepth =>
  induction names generalizing here with
  | nil =>
    refine ⟨here, true, by rw [Disk.resolveWith_eq, resolveNames], ?_, by simp,
      fun most hnests known => ?_⟩
    · rw [hway.lexical_eq]
      rfl
    · rw [Disk.traceWith_eq, Disk.traceNames, Nat.zero_add]
      exact hnests links hcourse.chained
  | cons name rest ih =>
    have hpiece := hcourse.pieces name List.mem_cons_self
    by_cases hidle : saysNothing name = true
    · have hpasses : passes here rest ⊆ passes here (name :: rest) := by
        rw [passes_idle hidle]
        exact List.Subset.refl _
      have hnext := ih hway (hcourse.tail (Disk.lexical_idle hidle here rest) hpasses)
      refine hnext.of_next hpasses fun known => ?_
      rw [Disk.traceWith_eq, Disk.traceNames_idle hidle, ← Disk.traceWith_eq]
    by_cases hup : name = Text.ofString ".."
    · subst hup
      have hhere : here ≠ [] := by
        rintro rfl
        have hstays := hcourse.stays
        rw [lexical, if_neg hidle, if_pos rfl] at hstays
        cases hstays
      have hpasses : passes here.dropLast rest ⊆ passes here (Text.ofString ".." :: rest) := by
        rw [passes_up]
        exact List.Subset.refl _
      have hnext := ih hway.dropLast (hcourse.tail (Disk.lexical_up hhere rest) hpasses)
      refine hnext.of_next hpasses fun known => ?_
      rw [Disk.traceWith_eq, Disk.traceNames_up, List.dropLast_append_of_ne_nil hhere,
        ← Disk.traceWith_eq]
    have hdown : LeadsDown name := ⟨by simpa using hidle, hup⟩
    have hfind := hway.find hpart hreal hpiece hdown
    by_cases hlink : IsLink other (target ++ (here ++ [name]))
    · rcases hfind with hfault | ⟨entry, hfound⟩
      · exact inside_of_lost hway hdown hcourse hfollowing hfault hlink
      · obtain ⟨text, htext⟩ := hlink
        obtain rfl : entry = .link text := by
          have hentry := (Disk.find_eq_ok.1 hfound).2
          rw [htext] at hentry
          exact (Option.some.inj hentry).symm
        exact inside_of_link hway hdown hcourse hportable hsettled hpart hfollowing hfound ihdepth
    · have hkept : (∃ fault, other.find false ⟨.single, real ++ here ++ [name]⟩ = .error fault ∧
            fault.isPathText = false) ∨
          ∃ place entry, other.find false ⟨.single, real ++ here ++ [name]⟩ = .ok (place, entry) ∧
            entry.isLink = false := by
        refine hfind.imp_right fun hthere => ?_
        obtain ⟨entry, hfound⟩ := hthere
        refine ⟨_, entry, hfound, ?_⟩
        cases entry with
        | directory => rfl
        | file => rfl
        | link text => exact absurd ⟨text, (Disk.find_eq_ok.1 hfound).2⟩ hlink
      have hpasses : passes (here ++ [name]) rest ⊆ passes here (name :: rest) := by
        rw [passes_down hdown]
        exact List.subset_cons_self _ _
      have hnext := ih (hway.concat hpiece hdown hlink)
        (hcourse.tail (Disk.lexical_down hdown here rest) hpasses)
      refine hnext.of_next hpasses fun known => ?_
      rw [Disk.traceWith_eq, Disk.traceNames_kept hdown hkept, List.append_assoc,
        ← Disk.traceWith_eq]

end ProviderKit.Archive
