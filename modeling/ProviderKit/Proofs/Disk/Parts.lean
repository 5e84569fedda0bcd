import ProviderKit.Proofs.Disk.Resolving

/-!
# What names are read as

A disk reads a name byte by byte and gives it back in its own form. A part of a path, that is, a
text that can be given to a disk, is not blank and has no slash in it, is read as such a part again
(`isPart_canonical`), and so are the pieces of a stored target. A walk takes the name of a new entry
from such parts (`isName_of_walk`).
-/

namespace ProviderKit.Utf8

/-- What bytes read as is made up of characters among them and of stray bytes from `0x80` on. -/
theorem mem_decodeLossless {bytes : Bytes} {c : CodePoint} (h : c ∈ decodeLossless bytes) :
    (∃ d, c = .char d ∧ String.utf8EncodeChar d ⊆ bytes) ∨
      ∃ b ∈ bytes, 0x80 ≤ b.toNat ∧ c = strayByte b := by
  induction hlength : bytes.length using Nat.strongRecOn generalizing bytes with
  | ind length ih =>
  subst hlength
  -- A sequence is read as its first character, or as a stray byte, and then the rest of it.
  by_cases hstarts : ∃ d tail, bytes = String.utf8EncodeChar d ++ tail
  · obtain ⟨d, tail, rfl⟩ := hstarts
    rw [decodeLossless_char] at h
    rcases List.mem_cons.1 h with rfl | hrest
    · exact .inl ⟨d, rfl, List.subset_append_left _ _⟩
    have hshorter : tail.length < (String.utf8EncodeChar d ++ tail).length := by
      have := utf8EncodeChar_length_pos d
      rw [List.length_append]
      omega
    rcases ih _ hshorter hrest rfl with ⟨d', hc, hsub⟩ | ⟨b, hb, hhigh, hc⟩
    · exact .inl ⟨d', hc, List.subset_append_of_subset_right _ hsub⟩
    · exact .inr ⟨b, List.mem_append_right _ hb, hhigh, hc⟩
  cases bytes with
  | nil => cases h
  | cons b0 rest =>
    have hnone : ∀ d tail, b0 :: rest ≠ String.utf8EncodeChar d ++ tail := fun d tail heq =>
      hstarts ⟨d, tail, heq⟩
    rw [decodeLossless_stray hnone] at h
    rcases List.mem_cons.1 h with rfl | hrest
    · refine .inr ⟨b0, List.mem_cons_self, Nat.le_of_not_lt fun hlow => ?_, rfl⟩
      exact hnone _ rest (by rw [utf8EncodeChar_one hlow]; rfl)
    rcases ih _ (Nat.lt_succ_self _) hrest rfl with ⟨d', hc, hsub⟩ | ⟨b, hb, hhigh, hc⟩
    · exact .inl ⟨d', hc, List.Subset.trans hsub (List.subset_cons_self _ _)⟩
    · exact .inr ⟨b, List.mem_cons_of_mem _ hb, hhigh, hc⟩

/-- A text that is read as no code points has none. -/
theorem canonical_ne_nil {t : Text} (h : t ≠ []) : canonical t ≠ [] := by
  intro hnil
  have hbytes := encodeLossless_canonical t
  rw [hnil] at hbytes
  cases t with
  | nil => exact h rfl
  | cons c t =>
    have hsome : codePointBytes c ≠ [] := by
      cases c with
      | char d => exact List.ne_nil_of_length_pos (utf8EncodeChar_length_pos d)
      | surrogate => exact List.cons_ne_nil _ _
    exact hsome (List.append_eq_nil_iff.1 hbytes.symm).1

end ProviderKit.Utf8

namespace ProviderKit.Disk

/-! ## Parts of a path -/

/-- A character below `0x80` that a usable text is read to have is in the text. -/
theorem mem_of_mem_canonical {t : Text} (h : Usable t) {a : Char} {b : UInt8}
    (ha : String.utf8EncodeChar a = [b]) (hb : b.toNat < 0x80)
    (hmem : CodePoint.char a ∈ Utf8.canonical t) : CodePoint.char a ∈ t := by
  rw [Utf8.canonical] at hmem
  split at hmem
  · exact hmem
  have hbyte : b ∈ Utf8.encodeLossless t := by
    rcases Utf8.mem_decodeLossless hmem with ⟨d, hd, hsub⟩ | ⟨_, -, -, hstray⟩
    · obtain rfl : a = d := CodePoint.char.inj hd
      exact hsub (by rw [ha]; exact List.mem_singleton_self b)
    · cases hstray
  obtain ⟨c, hc, hin⟩ := List.mem_flatMap.1 hbyte
  cases c with
  | surrogate s =>
    -- A surrogate that stands for a byte stands for one from `0x80` on.
    have hstands := (usable_iff.1 h _ hc).1
    rw [standsForByte, Bool.and_eq_true, decide_eq_true_eq, decide_eq_true_eq] at hstands
    rw [List.mem_singleton.1 hin, UInt8.toNat_ofNat'] at hb
    omega
  | char d =>
    rcases hd : String.utf8EncodeChar d with _ | ⟨b0, rest⟩
    · have := Utf8.utf8EncodeChar_length_pos d
      rw [hd] at this
      cases this
    have hin' : b ∈ b0 :: rest := hd ▸ hin
    rcases List.mem_cons.1 hin' with rfl | htail
    · -- The same first byte is read as the one character and as the other.
      have hone := Utf8.decodeLossless_char d []
      have hother := Utf8.decodeLossless_char a rest
      rw [List.append_nil, hd] at hone
      rw [ha, List.singleton_append, hone] at hother
      exact (List.cons.inj hother).1 ▸ hc
    · have := Utf8.le_of_mem_tail_utf8EncodeChar hd htail
      omega

/-- What a usable text is read as is usable. -/
theorem Usable.canonical {t : Text} (h : Usable t) : Usable (Utf8.canonical t) := by
  refine usable_iff.2 fun c hc => ⟨?_, ?_⟩
  · have hmem := hc
    rw [Utf8.canonical] at hmem
    split at hmem
    · exact (usable_iff.1 h c hmem).1
    rcases Utf8.mem_decodeLossless hmem with ⟨d, rfl, -⟩ | ⟨b, -, hhigh, rfl⟩
    · rfl
    · have hlow := b.toNat_lt
      have hval : (Fin.ofNat 2048 (0x400 + b.toNat)).val = 0x400 + b.toNat := by
        rw [Fin.val_ofNat]
        omega
      show (decide (0x480 ≤ (Fin.ofNat 2048 (0x400 + b.toNat)).val) &&
        decide ((Fin.ofNat 2048 (0x400 + b.toNat)).val < 0x500)) = true
      rw [hval, Bool.and_eq_true, decide_eq_true_eq, decide_eq_true_eq]
      omega
  · rintro rfl
    exact (usable_iff.1 h _ (mem_of_mem_canonical h (b := 0) (by decide +kernel) (by decide) hc)).2
      rfl

/-- What a text is read as is read as it is. -/
theorem canonical_canonical (t : Text) : Utf8.canonical (Utf8.canonical t) = Utf8.canonical t := by
  by_cases hwell : t.isWellFormed = true
  · have hread : Utf8.canonical t = t := if_pos hwell
    rw [hread, hread]
  · have hread : Utf8.canonical t = Utf8.decodeLossless (Utf8.encodeLossless t) := if_neg hwell
    rw [hread, Utf8.canonical_decodeLossless]

/-- A part of a path, as a disk reads it: a name, but for its length, or dots. -/
structure IsPart (name : Text) : Prop where
  nonempty : name ≠ []
  slashless : CodePoint.char '/' ∉ name
  canonical : Utf8.canonical name = name
  usable : Usable name

/-- A part of a path that a disk takes as a name is one. -/
theorem IsPart.isName {name : Text} (h : IsPart name) (hplain : IsPlain name)
    (hshort : Utf8.losslessSize name ≤ nameLimit) : IsName name :=
  ⟨h.nonempty, h.slashless, hplain, h.canonical, h.usable, hshort⟩

/-- A usable text between slashes that is not blank is read as a part of a path. -/
theorem isPart_canonical {name : Text} (husable : Usable name) (hnonempty : name ≠ [])
    (hslashless : CodePoint.char '/' ∉ name) : IsPart (Utf8.canonical name) :=
  ⟨Utf8.canonical_ne_nil hnonempty,
    fun hmem => hslashless
      (mem_of_mem_canonical husable (b := 0x2F) (by decide +kernel) (by decide) hmem),
    canonical_canonical name, husable.canonical⟩

/-- A target as a disk stores it: usable, and in the form in which it is read. -/
structure IsStored (target : Text) : Prop where
  usable : Usable target
  canonical : Utf8.canonical target = target

/-- What a usable target is read as can be stored. -/
theorem isStored_canonical {target : Text} (h : Usable target) : IsStored (Utf8.canonical target) :=
  ⟨h.canonical, canonical_canonical target⟩

/-- The pieces of a text between slashes have no slash in them. -/
theorem slashless_of_mem_split {t piece : Text} (h : piece ∈ Text.split (.char '/') t) :
    CodePoint.char '/' ∉ piece := by
  induction hlength : t.length using Nat.strongRecOn generalizing t with
  | ind length ih =>
  subst hlength
  by_cases hmem : CodePoint.char '/' ∈ t
  · obtain ⟨front, tail, rfl, hfront⟩ := List.eq_append_cons_of_mem hmem
    rw [Text.split_append_cons hfront] at h
    rcases List.mem_cons.1 h with rfl | hrest
    · exact hfront
    · refine ih _ ?_ hrest rfl
      rw [List.length_append, List.length_cons]
      omega
  · rw [Text.split_of_not_mem hmem] at h
    exact List.mem_singleton.1 h ▸ hmem

/-- The names between the slashes of a stored text are parts of a path. -/
theorem IsStored.isPart_of_mem_namesOf {t name : Text} (h : IsStored t)
    (hname : name ∈ Path.namesOf t) : IsPart name := by
  obtain ⟨hsplit, hcounts⟩ := List.mem_filter.1 hname
  have hnonempty : name ≠ [] := by
    rintro rfl
    cases hcounts
  exact ⟨hnonempty, slashless_of_mem_split hsplit,
    Utf8.canonical_of_mem_split (b := 0x2F) (by decide +kernel) (by decide) h.canonical hsplit,
    h.usable.subset (Text.subset_of_mem_split hsplit)⟩

/-- The names that a stored target adds to a walk are parts of a path. -/
theorem IsStored.isPart {target name : Text} (h : IsStored target)
    (hname : name ∈ targetNames target) :
    IsPart name := by
  have hdot : IsPart (Text.ofString ".") :=
    ⟨by decide, by decide, Utf8.canonical_ofString ".", by decide⟩
  unfold targetNames at hname
  dsimp only at hname
  split at hname
  · rcases List.mem_append.1 hname with hold | hnew
    · exact h.isPart_of_mem_namesOf hold
    · exact List.mem_singleton.1 hnew ▸ hdot
  · exact h.isPart_of_mem_namesOf hname

/-! ## The name of a new entry -/

/-- A walk ends at a free place in a directory, under one of the names that are followed or a piece
of a target. -/
theorem walk_to_free {disk : Disk} (hwf : disk.WellFormed) {through : Bool} {links : Nat}
    {here p : Place} {names : List Text} (hhere : disk.get? here = some .directory)
    (h : walk disk through links here names = .ok p) (hfree : disk.get? p = none) :
    ∃ parent name, p = parent ++ [name] ∧ disk.get? parent = some .directory ∧ IsPlain name ∧
      Utf8.losslessSize name ≤ nameLimit ∧
      (name ∈ names ∨
        ∃ q target, disk.get? q = some (.link target) ∧ name ∈ targetNames target) := by
  have htaken : disk.get? here ≠ none := by simp [hhere]
  clear hhere
  -- What is found along the names behind the first one is found along all of them.
  have hmore : ∀ {name : Text} {rest : List Text},
      (∃ parent last, p = parent ++ [last] ∧ disk.get? parent = some .directory ∧ IsPlain last ∧
        Utf8.losslessSize last ≤ nameLimit ∧ (last ∈ rest ∨
          ∃ q target, disk.get? q = some (.link target) ∧ last ∈ targetNames target)) →
      ∃ parent last, p = parent ++ [last] ∧ disk.get? parent = some .directory ∧ IsPlain last ∧
        Utf8.losslessSize last ≤ nameLimit ∧ (last ∈ name :: rest ∨
          ∃ q target, disk.get? q = some (.link target) ∧ last ∈ targetNames target) := by
    rintro name rest ⟨parent, last, heq, hparent, hplain, hshort, horigin⟩
    exact ⟨parent, last, heq, hparent, hplain, hshort, horigin.imp_left (List.mem_cons_of_mem _)⟩
  rw [walk_eq_ok] at h
  induction h with
  | arrived => exact absurd hfree htaken
  | dot _ _ ih => exact hmore (ih htaken)
  | up hhere _ ih => exact hmore (ih (by simp [hwf.dropLast hhere]))
  | free hlooks _ hp =>
    exact ⟨_, _, hp, hlooks.directory, hlooks.plain, hlooks.short, .inl List.mem_cons_self⟩
  | stop hlooks _ _ hp =>
    exact ⟨_, _, hp, hlooks.directory, hlooks.plain, hlooks.short, .inl List.mem_cons_self⟩
  | @follow _ _ _ target _ hlooks hlink _ _ ih =>
    -- Behind a link the names of its target come first.
    obtain ⟨parent, last, heq, hparent, hplain, hshort, horigin⟩ :=
      ih (by simp [get?_targetStart hlooks.directory])
    refine ⟨parent, last, heq, hparent, hplain, hshort, ?_⟩
    rcases horigin with hmem | hpiece
    · rcases List.mem_append.1 hmem with htarget | hlast
      · exact .inr ⟨_, target, hlink, htarget⟩
      · exact .inl (List.mem_cons_of_mem _ hlast)
    · exact .inr hpiece
  | down _ hentry _ _ ih => exact hmore (ih (by simp [hentry]))

/-- A walk along parts of a path ends at a free place only under a name, in a directory. -/
theorem isName_of_walk {disk : Disk} (hwf : disk.WellFormed)
    (htargets : ∀ p target, disk.get? p = some (.link target) → IsStored target) {through : Bool}
    {links : Nat} {here p : Place} {names : List Text} (hnames : ∀ name ∈ names, IsPart name)
    (hhere : disk.get? here = some .directory) (h : walk disk through links here names = .ok p)
    (hfree : disk.get? p = none) :
    ∃ parent name, p = parent ++ [name] ∧ disk.get? parent = some .directory ∧ IsName name := by
  obtain ⟨parent, name, heq, hparent, hplain, hshort, horigin⟩ := walk_to_free hwf hhere h hfree
  refine ⟨parent, name, heq, hparent, ?_⟩
  rcases horigin with hmem | ⟨q, target, hlink, hpiece⟩
  · exact (hnames name hmem).isName hplain hshort
  · exact ((htargets _ _ hlink).isPart hpiece).isName hplain hshort

end ProviderKit.Disk
