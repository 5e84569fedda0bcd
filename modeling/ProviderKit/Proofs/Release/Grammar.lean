import ProviderKit.Proofs.Text.Lines
import ProviderKit.Release.Tag

/-!
# The grammar of release references

A release is named by `v` and three runs of ASCII digits with single dots between them, with or
without `refs/tags/` in front, and by nothing else. The grammar is stated on texts, without a word
about how they are taken apart: `version_eq_ok_iff` says which references name which version, and
`version_eq_error_iff` what is said about the others. A version is made of digits and dots, so it is
one name of a path, and can be encoded.
-/

namespace ProviderKit.Release

variable {t v w reference : Text} {p : Problem}

/-- One or more ASCII digits, and nothing else. -/
def IsDigits (t : Text) : Prop :=
  t ≠ [] ∧ ∀ c ∈ t, ∃ digit : Char, c = .char digit ∧ '0' ≤ digit ∧ digit ≤ '9'

/-- Three runs of digits with single dots between them. -/
def IsNumbered (v : Text) : Prop :=
  ∃ major minor patch, IsDigits major ∧ IsDigits minor ∧ IsDigits patch ∧
    v = major ++ "." ++ minor ++ "." ++ patch

/-- The reference names the version: the version is numbered, and a `v` stands in front of it, which
may follow the beginning of a full reference. -/
def Names (reference v : Text) : Prop :=
  IsNumbered v ∧ (reference = "v" ++ v ∨ reference = "refs/tags/v" ++ v)

/-- The tag of a reference: what is behind the beginning of a full reference, taken off once, or the
whole text if it does not begin so. -/
def IsTagOf (tag reference : Text) : Prop :=
  reference = "refs/tags/" ++ tag ∨ (tag = reference ∧ ∀ rest, reference ≠ "refs/tags/" ++ rest)

/-! ## Numbers -/

/-- The digits are the characters from `0` to `9`. -/
theorem isDigit_iff {c : CodePoint} :
    isDigit c = true ↔ ∃ digit : Char, c = .char digit ∧ '0' ≤ digit ∧ digit ≤ '9' := by
  cases c with
  | surrogate s => simp [isDigit, CodePoint.satisfies]
  | char digit =>
    simp only [isDigit, CodePoint.satisfies, Char.isDigit, Bool.and_eq_true, decide_eq_true_eq,
      CodePoint.char.injEq, exists_eq_left', ge_iff_le]
    rfl

/-- A number is a run of digits. -/
theorem isNumber_iff : isNumber t = true ↔ IsDigits t := by
  simp only [isNumber, IsDigits, Bool.and_eq_true, List.all_eq_true, isDigit_iff,
    Bool.not_eq_true', List.isEmpty_eq_false_iff]

/-- There is no dot in a number. -/
theorem IsDigits.dotless (h : IsDigits t) : .char '.' ∉ t := by
  intro hdot
  obtain ⟨digit, hdigit, hlow, -⟩ := h.2 _ hdot
  cases hdigit
  exact absurd hlow (by decide)

/-- A text that splits into three numbers is made of them, and the other way round: none of them
holds a dot, so the dots are where the text is split. -/
theorem isVersion_iff : isVersion v = true ↔ IsNumbered v := by
  constructor
  · intro h
    unfold isVersion at h
    split at h
    next major minor patch hsplit =>
      simp only [Bool.and_eq_true, isNumber_iff] at h
      obtain ⟨⟨hmajor, hminor⟩, hpatch⟩ := h
      refine ⟨major, minor, patch, hmajor, hminor, hpatch, ?_⟩
      have hjoin := Text.join_split (.char '.') v
      rw [hsplit] at hjoin
      rw [← hjoin]
      simp [Text.join, Text.ofString, Text.ofChars]
    next => cases h
  · rintro ⟨major, minor, patch, hmajor, hminor, hpatch, rfl⟩
    have hjoin : major ++ "." ++ minor ++ "." ++ patch =
        Text.join [.char '.'] [major, minor, patch] := by
      simp [Text.join, Text.ofString, Text.ofChars]
    have hsplit : Text.split (.char '.') (Text.join [.char '.'] [major, minor, patch]) =
        [major, minor, patch] :=
      Text.split_join (by simp [hmajor.dotless, hminor.dotless, hpatch.dotless])
        (List.cons_ne_nil _ _)
    rw [isVersion, hjoin, hsplit]
    simp only [isNumber_iff, Bool.and_eq_true]
    exact ⟨⟨hmajor, hminor⟩, hpatch⟩

/-! ## Tags -/

/-- A tag names what is behind its letter. -/
theorem versionOfTag?_eq_some_iff :
    versionOfTag? t = some v ↔ IsNumbered v ∧ t = "v" ++ v := by
  constructor
  · intro h
    unfold versionOfTag? at h
    split at h
    next rest =>
      split at h
      next hversion =>
        cases h
        exact ⟨isVersion_iff.1 hversion, rfl⟩
      next => cases h
    next => cases h
  · rintro ⟨hversion, rfl⟩
    show (if isVersion v then some v else none) = some v
    rw [if_pos (isVersion_iff.2 hversion)]

/-- The tag that is looked at is the tag of the reference. -/
theorem isTagOf_tagOf (reference : Text) : IsTagOf (tagOf reference) reference := by
  unfold tagOf
  rcases hdrop : reference.dropPrefix? referenceStart with _ | tag
  · refine .inr ⟨rfl, fun rest heq => ?_⟩
    have hfound : reference.dropPrefix? referenceStart = some rest :=
      Text.dropPrefix?_eq_some_iff.2 heq
    rw [hdrop] at hfound
    cases hfound
  · exact .inl (Text.dropPrefix?_eq_some_iff.1 hdrop)

/-- A reference has one tag. -/
theorem IsTagOf.unique {tag other : Text} (h : IsTagOf tag reference)
    (h' : IsTagOf other reference) : tag = other := by
  rcases h with h | ⟨rfl, hno⟩ <;> rcases h' with h' | ⟨rfl, hno'⟩
  · exact List.append_cancel_left (h.symm.trans h')
  · exact absurd h (hno' tag)
  · exact absurd h' (hno other)
  · rfl

/-- The tag of a reference begins with the letter if the reference names something. -/
theorem tagOf_eq_iff : tagOf reference = "v" ++ v ↔
    reference = "v" ++ v ∨ reference = "refs/tags/v" ++ v := by
  constructor
  · intro h
    have htag := isTagOf_tagOf reference
    rw [h] at htag
    rcases htag with hfull | ⟨hplain, -⟩
    · exact .inr hfull
    · exact .inl hplain.symm
  · rintro (rfl | rfl)
    · refine (isTagOf_tagOf _).unique (.inr ⟨rfl, fun rest heq => ?_⟩)
      have hhead : CodePoint.char 'v' = .char 'r' := (List.cons.inj heq).1
      exact absurd hhead (by decide)
    · exact (isTagOf_tagOf _).unique (.inl rfl)

/-! ## References -/

/-- A reference gives the version that it names, and no other one. -/
theorem version_eq_ok_iff : version reference = .ok v ↔ Names reference v := by
  have htag : versionOfTag? (tagOf reference) = some v ↔ Names reference v := by
    rw [versionOfTag?_eq_some_iff, tagOf_eq_iff, Names]
  rw [← htag, version]
  rcases versionOfTag? (tagOf reference) with _ | found <;> simp

/-- A reference that names no version is rejected, with its tag. -/
theorem version_eq_error_iff : version reference = .error p ↔
    (∀ v, ¬ Names reference v) ∧ ∃ tag, IsTagOf tag reference ∧ p = .badVersionTag tag := by
  constructor
  · intro h
    refine ⟨fun v hv => ?_, tagOf reference, isTagOf_tagOf reference, ?_⟩
    · rw [version_eq_ok_iff.2 hv] at h
      cases h
    · unfold version at h
      split at h
      · cases h
      · exact (Except.error.inj h).symm
  · rintro ⟨hno, tag, htag, rfl⟩
    rcases hversion : version reference with p | v
    · unfold version at hversion
      split at hversion
      · cases hversion
      · rw [← Except.error.inj hversion, htag.unique (isTagOf_tagOf reference)]
    · exact absurd (version_eq_ok_iff.1 hversion) (hno v)

/-! ## What a version is made of -/

/-- The version of a release is made of digits and dots. -/
theorem mem_version (h : version reference = .ok v) {c : CodePoint} (hc : c ∈ v) :
    c = .char '.' ∨ isDigit c = true := by
  obtain ⟨⟨major, minor, patch, hmajor, hminor, hpatch, rfl⟩, -⟩ := version_eq_ok_iff.1 h
  have hdot : ∀ {c : CodePoint}, c ∈ Text.ofString "." → c = .char '.' := fun hc =>
    List.mem_singleton.1 hc
  rw [List.mem_append, List.mem_append, List.mem_append, List.mem_append] at hc
  rcases hc with (((hc | hc) | hc) | hc) | hc
  · exact .inr (isDigit_iff.2 (hmajor.2 c hc))
  · exact .inl (hdot hc)
  · exact .inr (isDigit_iff.2 (hminor.2 c hc))
  · exact .inl (hdot hc)
  · exact .inr (isDigit_iff.2 (hpatch.2 c hc))

/-- So it has no slash. -/
theorem slashless_version (h : version reference = .ok v) : .char '/' ∉ v := by
  intro hslash
  rcases mem_version h hslash with hdot | hdigit
  · cases hdot
  · exact absurd hdigit (by decide)

/-- Nor has it a lone surrogate. -/
theorem isWellFormed_version (h : version reference = .ok v) : v.isWellFormed = true := by
  refine List.all_eq_true.2 fun c hc => ?_
  rcases mem_version h hc with rfl | hdigit
  · rfl
  · cases c with
    | char c => rfl
    | surrogate s => cases hdigit

end ProviderKit.Release
