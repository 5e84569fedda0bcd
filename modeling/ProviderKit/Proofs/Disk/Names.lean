import ProviderKit.Proofs.Disk.Removal
import ProviderKit.Proofs.Text.Pieces

/-!
# Names that a disk can have

A name on a disk is a file name (`IsName`): one piece of a path, neither blank nor dots, as short as
a disk takes it, and in the form in which it reads back. The text of a path can be given to a disk
if its names can, and if it is short (`isGivable_of_usable`); for its length it does not matter in
which form the names are (`losslessSize_text_canonical`).
-/

namespace ProviderKit

/-- The path above that with one name more. -/
@[simp]
theorem Path.parent_child (path : Path) (name : Text) : (path.child name).parent = path := by
  rw [Path.parent, Path.child, List.dropLast_concat]

/-- The last name of a path with one name more. -/
@[simp]
theorem Path.name_child (path : Path) (name : Text) : (path.child name).name = name := by
  rw [Path.name, Path.child, List.getLast?_concat, Option.getD_some]

namespace Disk

/-- The text can be given to a disk, as far as its code points go. -/
def Usable (t : Text) : Prop := isEncodable t = true ∧ hasNull t = false

instance (t : Text) : Decidable (Usable t) := inferInstanceAs (Decidable (_ ∧ _))

/-- A text is usable if its code points are. -/
theorem usable_iff {t : Text} :
    Usable t ↔ ∀ c ∈ t, standsForByte c = true ∧ c ≠ .char '\x00' := by
  unfold Usable isEncodable hasNull
  rw [List.all_eq_true, ← Bool.not_eq_true, List.contains_iff_mem]
  constructor
  · rintro ⟨hencodable, hnull⟩ c hc
    exact ⟨hencodable c hc, fun heq => hnull (heq ▸ hc)⟩
  · intro h
    exact ⟨fun c hc => (h c hc).1, fun hnull => (h _ hnull).2 rfl⟩

/-- A part of a usable text is usable. -/
theorem Usable.subset {s t : Text} (h : Usable t) (hs : s ⊆ t) : Usable s :=
  usable_iff.2 fun c hc => usable_iff.1 h c (hs hc)

/-- The name of an entry: a piece of a path that is not blank, that no disk takes for a dot or two,
and that reads back as it is. -/
structure IsName (name : Text) : Prop where
  nonempty : name ≠ []
  slashless : CodePoint.char '/' ∉ name
  plain : IsPlain name
  canonical : Utf8.canonical name = name
  usable : Usable name
  short : Utf8.losslessSize name ≤ nameLimit

/-- Whether a text is the name of an entry. -/
def isName (name : Text) : Bool :=
  !name.isEmpty && !name.contains (.char '/') && name != Text.ofString "." &&
    name != Text.ofString ".." && Utf8.canonical name == name && isEncodable name &&
    !hasNull name && decide (Utf8.losslessSize name ≤ nameLimit)

/-- A text can be checked to be a name. -/
theorem isName_of_check {name : Text} (h : isName name = true) : IsName name := by
  simp only [isName, Bool.and_eq_true, Bool.not_eq_true', bne_iff_ne, beq_iff_eq,
    decide_eq_true_eq, List.isEmpty_eq_false_iff] at h
  obtain ⟨⟨⟨⟨⟨⟨⟨hnonempty, hslash⟩, hdot⟩, hup⟩, hcanonical⟩, hencodable⟩, hnull⟩, hshort⟩ := h
  have hslashless : CodePoint.char '/' ∉ name := by
    rw [← List.contains_iff_mem, hslash]
    exact Bool.false_ne_true
  exact ⟨hnonempty, hslashless, ⟨hdot, hup⟩, hcanonical, ⟨hencodable, hnull⟩, hshort⟩

/-- Names read back as they are. -/
theorem map_canonical {names : List Text} (h : ∀ name ∈ names, IsName name) :
    names.map Utf8.canonical = names := by
  calc names.map Utf8.canonical
      = names.map id := List.map_congr_left fun name hname => (h name hname).canonical
    _ = names := List.map_id _

/-! ## The texts of paths -/

/-- The text of an absolute path. -/
theorem text_single (names : List Text) :
    (⟨.single, names⟩ : Path).text = "/" ++ Text.join "/" names := rfl

/-- The text of a path with a name is its slashes and its names. -/
theorem text_of_ne_nil (root : Path.Root) {names : List Text} (h : names ≠ []) :
    (⟨root, names⟩ : Path).text = root.text ++ Text.join "/" names := by
  cases root with
  | single => rfl
  | double => rfl
  | relative =>
    cases names with
    | nil => exact absurd rfl h
    | cons => rfl

/-- The text of a path can be given to a disk, as far as its code points go, if its names can. -/
theorem usable_text (root : Path.Root) {names : List Text} (h : ∀ name ∈ names, Usable name) :
    Usable (⟨root, names⟩ : Path).text := by
  have hroot : Usable root.text ∧ Usable (Text.ofString ".") := by
    cases root <;> exact ⟨⟨rfl, rfl⟩, rfl, rfl⟩
  by_cases hnil : names = []
  · subst hnil
    cases root with
    | relative => exact hroot.2
    | single => exact ⟨rfl, rfl⟩
    | double => exact ⟨rfl, rfl⟩
  rw [text_of_ne_nil root hnil]
  refine usable_iff.2 fun c hc => ?_
  rcases List.mem_append.1 hc with hslash | hjoin
  · exact usable_iff.1 hroot.1 c hslash
  obtain rfl | ⟨name, hname, hpiece⟩ := Text.mem_join hjoin
  · exact ⟨rfl, by decide⟩
  · exact usable_iff.1 (h name hname) c hpiece

/-- A path can be given to a disk if its names are usable and its text is short. -/
theorem isGivable_of_usable {root : Path.Root} {names : List Text}
    (h : ∀ name ∈ names, Usable name)
    (hshort : Utf8.losslessSize (⟨root, names⟩ : Path).text < pathLimit) :
    IsGivable ⟨root, names⟩ :=
  ⟨(usable_text root h).1, (usable_text root h).2, hshort⟩

/-- The names of a path that can be given are usable. -/
theorem usable_of_isGivable {path : Path} (h : IsGivable path) :
    ∀ name ∈ path.names, Usable name := by
  intro name hname
  have htext : Usable path.text := ⟨h.1, h.2.1⟩
  have hjoin : name ⊆ Text.join "/" path.names := Text.subset_join hname
  refine htext.subset ?_
  rw [text_of_ne_nil path.root (List.ne_nil_of_mem hname)]
  exact List.Subset.trans hjoin (List.subset_append_right _ _)

/-- With a path that can be given to a disk the path without its last name can be given, too. -/
theorem isGivable_parent {path : Path} (h : IsGivable path) : IsGivable path.parent := by
  have husable : ∀ name ∈ path.names.dropLast, Usable name := fun name hname =>
    usable_of_isGivable h name (List.dropLast_subset _ hname)
  refine isGivable_of_usable husable ?_
  obtain ⟨root, names⟩ := path
  rcases List.eq_nil_or_concat names with rfl | ⟨init, last, rfl⟩
  · exact h.2.2
  rw [List.concat_eq_append, List.dropLast_concat]
  cases init with
  | nil =>
    have hempty : ∀ root, Utf8.losslessSize (⟨root, []⟩ : Path).text < pathLimit := by
      rintro ⟨⟩ <;> decide
    exact hempty root
  | cons first rest =>
    have hsize := h.2.2
    rw [List.concat_eq_append, text_of_ne_nil root (by simp)] at hsize
    have hjoin : Text.join "/" (first :: rest ++ [last]) =
        Text.join "/" (first :: rest) ++ .char '/' :: last := Text.join_concat first rest last
    rw [hjoin, losslessSize_append, losslessSize_append] at hsize
    rw [text_of_ne_nil root (List.cons_ne_nil _ _), losslessSize_append]
    omega

/-- A path can be given to a disk if one with a name more can. -/
theorem isGivable_of_child {path : Path} {name : Text} (h : IsGivable (path.child name)) :
    IsGivable path := by
  have hparent := isGivable_parent h
  rwa [Path.parent_child] at hparent

/-- The length of an absolute path does not depend on the form of its names. -/
theorem losslessSize_text_canonical (names : List Text) :
    Utf8.losslessSize (⟨.single, names.map Utf8.canonical⟩ : Path).text =
      Utf8.losslessSize (⟨.single, names⟩ : Path).text := by
  have hone : ∀ name, Utf8.losslessSize (Utf8.canonical name) = Utf8.losslessSize name := by
    intro name
    rw [Utf8.losslessSize, Utf8.encodeLossless_canonical]
    rfl
  have hjoin : ∀ names : List Text, Utf8.losslessSize (Text.join "/" (names.map Utf8.canonical)) =
      Utf8.losslessSize (Text.join "/" names) := by
    intro names
    induction names with
    | nil => rfl
    | cons piece pieces ih =>
      cases pieces with
      | nil => exact hone piece
      | cons next pieces =>
        have hcons : ∀ (piece next : Text) (pieces : List Text),
            Utf8.losslessSize (Text.join "/" (piece :: next :: pieces)) =
              Utf8.losslessSize piece + (Utf8.losslessSize [CodePoint.char '/'] +
                Utf8.losslessSize (Text.join "/" (next :: pieces))) := by
          intro piece next pieces
          have htext : Text.join "/" (piece :: next :: pieces) =
              piece ++ ([.char '/'] ++ Text.join "/" (next :: pieces)) := Text.join_cons _ _ _
          rw [htext, losslessSize_append, losslessSize_append]
        rw [List.map_cons, List.map_cons, hcons, hcons, hone, ← List.map_cons, ih]
  rw [text_single, text_single, losslessSize_append, losslessSize_append, hjoin]

end Disk

end ProviderKit
