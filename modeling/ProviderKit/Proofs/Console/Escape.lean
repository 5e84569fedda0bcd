import ProviderKit.Proofs.Console.Markup

/-!
# Escaped text

`protect` doubles the backslashes in front of each tag of a text and adds one, so that the markup
reads the pieces of the text, each tag plain, whatever stands behind (`pieces_protect_append`). What
is shown of it is the text, unless a backslash of the text is stray (`shown_shielded_eq_iff`).

At the end of the text stand the backslashes that it ends in, and these `escape` only sees if there
is just one. `shown_escape_eq_iff` and `shown_escape_append_eq_iff` say for which texts that is
enough: the first for a text that nothing follows, the second for one that a tag follows.
-/

namespace ProviderKit.Markup

variable {t s body rest : Text} {c : CodePoint}

/-! ## Protected text -/

/-- A piece whose tag is plain text. -/
def Piece.shielded : Piece → Piece
  | plain c => plain c
  | tag n body => tag (2 * n + 1) body

/-- The text with its tags made plain. -/
def protect (t : Text) : Text := (pieces t).flatMap Piece.escaped

theorem escape_eq (t : Text) : escape t = closeEnd (protect t) := rfl

/-- A tag is protected by twice as many backslashes and one more. -/
theorem protect_tag (hbody : IsTagBody body) (n : Nat) (rest : Text) :
    protect (backslashes n ++ bracketed body ++ rest) =
      backslashes (2 * n + 1) ++ bracketed body ++ protect rest := by
  rw [protect, pieces_tag hbody]
  rfl

/-- A code point that is none of a tag's needs no protection. -/
theorem protect_plain (h : tagAt? ((c :: t).dropWhile isBackslash) = none) :
    protect (c :: t) = c :: protect t := by
  rw [protect, pieces_plain h]
  rfl

/-- Behind its backslashes the text ends, or has an opening bracket. -/
def IsBorder (s : Text) : Prop :=
  ∃ n more, s = backslashes n ++ more ∧ (more = [] ∨ ∃ after, more = .char '[' :: after)

/-- No tag goes on over a border. -/
theorem IsBorder.tagBody_eq (h : IsBorder s) : tagBody s = none := by
  obtain ⟨n, more, rfl, hmore⟩ := h
  induction n with
  | zero => obtain rfl | ⟨after, rfl⟩ := hmore <;> rfl
  | succ n ih =>
    rw [← cons_backslashes, List.cons_append, tagBody, ih]
    · rfl
    · decide
    · decide

/-- No tag starts right before a border. -/
theorem IsBorder.tagAt?_eq (h : IsBorder s) : tagAt? (.char '[' :: s) = none := by
  obtain ⟨n, more, rfl, hmore⟩ := h
  cases n with
  | zero => obtain rfl | ⟨after, rfl⟩ := hmore <;> rfl
  | succ n => rfl

/-- More of what is protected is no more of a tag. -/
theorem tagBody_protect_append (ht : tagBody t = none) (hs : IsBorder s) :
    tagBody (protect t ++ s) = none := by
  induction t using pieces_induction with
  | nil => exact hs.tagBody_eq
  | tag n body rest hbody ih =>
    rw [protect_tag hbody, List.append_assoc, List.append_assoc]
    exact IsBorder.tagBody_eq ⟨_, _, rfl, .inr ⟨_, rfl⟩⟩
  | plain c t h ih =>
    rw [protect_plain h, List.cons_append]
    by_cases hclose : c = .char ']'
    · rw [hclose, tagBody] at ht
      exact absurd ht (by simp)
    by_cases hopen : c = .char '['
    · rw [hopen, tagBody]
    · rw [tagBody, Option.map_eq_none_iff] at ht ⊢
      · exact ih ht
      all_goals assumption

/-- The last code point of the text is not a backslash. -/
def EndsClear (t : Text) : Prop := t.getLast? ≠ some (.char '\\')

/-- A bracket that opens no tag opens none in the protected text. -/
theorem tagAt?_cons_protect_append (ht : tagAt? (.char '[' :: t) = none) (hs : IsBorder s) :
    tagAt? (.char '[' :: (protect t ++ s)) = none := by
  induction t using pieces_induction with
  | nil => exact hs.tagAt?_eq
  | tag n body rest hbody ih =>
    rw [protect_tag hbody, List.append_assoc, List.append_assoc]
    exact IsBorder.tagAt?_eq ⟨_, _, rfl, .inr ⟨_, rfl⟩⟩
  | plain c t h ih =>
    rw [protect_plain h, List.cons_append]
    rw [tagAt?] at ht ⊢
    split_ifs at ht ⊢ with hfirst
    · rw [Option.map_eq_none_iff] at ht ⊢
      exact tagBody_protect_append ht hs
    · rfl

/-- Backslashes that no tag follows are followed by none in the protected text. -/
theorem tagAt?_dropWhile_protect_append (hclear : EndsClear t) (hne : t ≠ [])
    (ht : tagAt? (t.dropWhile isBackslash) = none) (hs : IsBorder s) :
    tagAt? ((protect t ++ s).dropWhile isBackslash) = none := by
  induction t using pieces_induction with
  | nil => exact absurd rfl hne
  | tag n body rest hbody ih =>
    rw [List.append_assoc, dropWhile_backslashes_append] at ht
    have hstop : (bracketed body ++ rest).dropWhile isBackslash = bracketed body ++ rest := rfl
    rw [hstop, tagAt?_eq_some_iff.2 ⟨hbody, rfl⟩] at ht
    cases ht
  | plain c t h ih =>
    rw [protect_plain h, List.cons_append]
    by_cases hc : c = .char '\\'
    · subst hc
      have hmore : t ≠ [] := by
        rintro rfl
        exact hclear rfl
      refine ih ?_ hmore ht
      rwa [EndsClear, List.getLast?_cons_of_ne_nil hmore] at hclear
    · have hkeep : ∀ u, (c :: u).dropWhile isBackslash = c :: u := fun u =>
        List.dropWhile_cons_of_neg (by simpa [isBackslash] using hc)
      rw [hkeep] at ht ⊢
      by_cases hopen : c = .char '['
      · subst hopen
        exact tagAt?_cons_protect_append ht hs
      · exact tagAt?_cons_of_ne hopen _

/-- What is left of a text that does not end in a backslash does not end in one. -/
theorem EndsClear.of_append (h : EndsClear (s ++ t)) : EndsClear t := by
  rcases eq_or_ne t [] with rfl | hne
  · exact nofun
  · rwa [EndsClear, List.getLast?_append_of_ne_nil _ hne] at h

/-- Protected text is read as the pieces of the text, each tag plain, whatever stands behind. -/
theorem pieces_protect_append (hclear : EndsClear t) (hs : IsBorder s) :
    pieces (protect t ++ s) = (pieces t).map Piece.shielded ++ pieces s := by
  induction t using pieces_induction with
  | nil => rfl
  | tag n body rest hbody ih =>
    rw [protect_tag hbody, List.append_assoc, pieces_tag hbody, pieces_tag hbody,
      ih hclear.of_append]
    rfl
  | plain c t h ih =>
    have htag := tagAt?_dropWhile_protect_append hclear (List.cons_ne_nil c t) h hs
    rw [protect_plain h, List.cons_append] at htag ⊢
    rw [pieces_plain htag, pieces_plain h, ih (hclear.of_append (s := [c]))]
    rfl

/-- Some text and the backslashes that it ends in: these are pieces of their own. -/
theorem exists_core (t : Text) : ∃ core n, t = core ++ backslashes n ∧ EndsClear core ∧
    pieces t = pieces core ++ List.replicate n (.plain (.char '\\')) := by
  induction t using pieces_induction with
  | nil => exact ⟨[], 0, rfl, nofun, rfl⟩
  | tag n body rest hbody ih =>
    obtain ⟨core, m, hrest, hclear, hpieces⟩ := ih
    refine ⟨backslashes n ++ bracketed body ++ core, m, ?_, ?_, ?_⟩
    · rw [hrest, ← List.append_assoc]
    · rcases eq_or_ne core [] with rfl | hne
      · rw [List.append_nil, EndsClear, bracketed, ← List.append_assoc, List.getLast?_concat]
        decide
      · rwa [EndsClear, List.getLast?_append_of_ne_nil _ hne]
    · rw [pieces_tag hbody, pieces_tag hbody, hpieces, List.cons_append]
  | plain c t h ih =>
    obtain ⟨core, m, rfl, hclear, hpieces⟩ := ih
    by_cases hback : core = [] ∧ c = .char '\\'
    · obtain ⟨rfl, rfl⟩ := hback
      refine ⟨[], m + 1, rfl, nofun, ?_⟩
      rw [pieces_plain h, hpieces]
      rfl
    · have hcore : EndsClear (c :: core) := by
        rcases eq_or_ne core [] with rfl | hne
        · rw [EndsClear, List.getLast?_singleton]
          exact fun heq => hback ⟨rfl, Option.some.inj heq⟩
        · rwa [EndsClear, List.getLast?_cons_of_ne_nil hne]
      refine ⟨c :: core, m, rfl, hcore, ?_⟩
      -- A tag in the core would be one in the text.
      have hplain : tagAt? ((c :: core).dropWhile isBackslash) = none := by
        rcases htag : tagAt? ((c :: core).dropWhile isBackslash) with _ | ⟨body, rest⟩
        · rfl
        obtain ⟨hbody, hdrop⟩ := tagAt?_eq_some_iff.1 htag
        have hlonger : (c :: (core ++ backslashes m)).dropWhile isBackslash =
            bracketed body ++ (rest ++ backslashes m) := by
          rw [← List.cons_append, List.dropWhile_append, hdrop, ← List.append_assoc]
          rfl
        rw [hlonger, tagAt?_eq_some_iff.2 ⟨hbody, rfl⟩] at h
        cases h
      rw [pieces_plain h, hpieces, pieces_plain hplain, List.cons_append]

/-- How many backslashes a text ends in. -/
def backslashesAtEnd (t : Text) : Nat := (t.reverse.takeWhile isBackslash).length

/-- Behind a core there are no backslashes but those that were put there. -/
theorem backslashesAtEnd_append (h : EndsClear t) (n : Nat) :
    backslashesAtEnd (t ++ backslashes n) = n := by
  have hrest : t.reverse.takeWhile isBackslash = [] := by
    rcases hreverse : t.reverse with _ | ⟨c, u⟩
    · rfl
    · refine List.takeWhile_cons_of_neg fun hc => h ?_
      rw [← List.head?_reverse, hreverse]
      simpa [isBackslash] using hc
  rw [backslashesAtEnd, List.reverse_append, backslashes, List.reverse_replicate]
  rw [← backslashes, takeWhile_backslashes_append, hrest, List.append_nil, backslashes,
    List.length_replicate]

/-- What a text that ends in some backslashes ends in when it was escaped. -/
def closedEnd (n : Nat) : Nat := if n = 1 then 2 else n

/-- A text starts with as many backslashes as it has, and no more. -/
theorem hasPrefix_backslashes (h : t.head? ≠ some (.char '\\')) (m n : Nat) :
    Text.hasPrefix (backslashes n ++ t) (backslashes m) = decide (m ≤ n) := by
  rw [Text.hasPrefix]
  induction m generalizing n with
  | zero =>
    have hnone : backslashes 0 = [] := rfl
    rw [hnone, Text.dropPrefix?, Option.isSome_some, decide_eq_true (Nat.zero_le n)]
  | succ m ih =>
    cases n with
    | zero =>
      cases t with
      | nil => rfl
      | cons c t =>
        have hnone : backslashes 0 ++ c :: t = c :: t := rfl
        rw [hnone, ← cons_backslashes, Text.dropPrefix?, if_neg fun hc => h (congrArg some hc)]
        rfl
    | succ n =>
      rw [← cons_backslashes, ← cons_backslashes, List.cons_append, Text.dropPrefix?, if_pos rfl,
        ih]
      simp

/-- A single backslash at the end is doubled. -/
theorem closeEnd_append (h : EndsClear t) (n : Nat) :
    closeEnd (t ++ backslashes n) = t ++ backslashes (closedEnd n) := by
  have hends (m : Nat) : Text.hasSuffix (t ++ backslashes n) (backslashes m) = decide (m ≤ n) := by
    have hreverse (k : Nat) : (backslashes k).reverse = backslashes k := List.reverse_replicate
    rw [Text.hasSuffix, List.reverse_append, hreverse, hreverse]
    exact hasPrefix_backslashes (by rwa [List.head?_reverse]) m n
  have hone : Text.ofString "\\" = backslashes 1 := rfl
  have htwo : Text.ofString "\\\\" = backslashes 2 := rfl
  rw [closeEnd, hone, htwo, hends, hends, closedEnd]
  by_cases h1 : n = 1
  · rw [if_pos h1, h1, List.append_assoc, backslashes_append]
    rfl
  · rw [if_neg h1, if_neg]
    simp only [Bool.and_eq_true, Bool.not_eq_true', decide_eq_true_eq, decide_eq_false_iff_not]
    omega

/-! ## Stray backslashes -/

/-- A tag that was made plain is shown with the backslashes that stood in front of it. -/
theorem shown_shielded_tag (n : Nat) (body : Text) (pieces : List Piece) :
    shown (.tag (2 * n + 1) body :: pieces) = (Piece.tag n body).text ++ shown pieces := by
  have hhalf : (2 * n + 1) / 2 = n := by omega
  have hodd : (2 * n + 1) % 2 = 1 := by omega
  rw [shown, hhalf, if_pos hodd, Piece.text]

/-- If shielded pieces show what they were read from at first, it is all that they show. -/
theorem shown_shielded_of_append {pieces : List Piece} {s t : Text}
    (h : shown (pieces.map Piece.shielded) ++ s = pieces.flatMap Piece.text ++ t) :
    shown (pieces.map Piece.shielded) = pieces.flatMap Piece.text ∧ s = t := by
  have hboth : ∀ u : Text, u ++ s = u ++ t → s = t := fun u => List.append_cancel_left
  suffices hshown : shown (pieces.map Piece.shielded) = pieces.flatMap Piece.text from
    ⟨hshown, hboth _ (hshown ▸ h)⟩
  induction pieces with
  | nil => rfl
  | cons piece pieces ih =>
    cases piece with
    | tag n body =>
      rw [List.map_cons, Piece.shielded, shown_shielded_tag, List.flatMap_cons, List.append_assoc,
        List.append_assoc] at h
      rw [List.map_cons, Piece.shielded, shown_shielded_tag, List.flatMap_cons,
        ih (List.append_cancel_left h)]
    | plain c =>
      rw [List.map_cons, Piece.shielded, List.flatMap_cons, Piece.text] at h ⊢
      by_cases hstray : c = .char '\\' ∧
          (pieces.map Piece.shielded).head? = some (.plain (.char '['))
      · -- The stray backslash is not shown, and what is shown in its place is a bracket.
        obtain ⟨rfl, hhead⟩ := hstray
        obtain ⟨more, hmore⟩ := List.head?_eq_some_iff.1 hhead
        rw [hmore, shown] at h
        cases h
      · rw [shown_plain fun hc hhead => hstray ⟨hc, hhead⟩] at h ⊢
        rw [ih (List.cons.inj h).2, List.singleton_append]

/-- The text holds a backslash in front of a bracket that opens no tag. -/
def HasStray (t : Text) : Prop :=
  ∃ after, .char '\\' :: .char '[' :: after <:+ t ∧ tagAt? (.char '[' :: after) = none

/-- A code point adds a stray backslash if it is one. -/
theorem hasStray_cons_iff : HasStray (c :: t) ↔
    (c = .char '\\' ∧ ∃ after, t = .char '[' :: after ∧ tagAt? t = none) ∨ HasStray t := by
  constructor
  · rintro ⟨after, hsuffix, htag⟩
    rcases List.suffix_cons_iff.1 hsuffix with heq | hsuffix
    · obtain ⟨rfl, rfl⟩ := List.cons.inj heq
      exact .inl ⟨rfl, after, rfl, htag⟩
    · exact .inr ⟨after, hsuffix, htag⟩
  · rintro (⟨rfl, after, rfl, htag⟩ | ⟨after, hsuffix, htag⟩)
    · exact ⟨after, List.suffix_rfl, htag⟩
    · exact ⟨after, hsuffix.trans (List.suffix_cons c t), htag⟩

/-- Text without backslashes adds no stray one. -/
theorem hasStray_append_iff (h : .char '\\' ∉ s) : HasStray (s ++ t) ↔ HasStray t := by
  induction s with
  | nil => rfl
  | cons c s ih =>
    rw [List.cons_append, hasStray_cons_iff, ih fun hmem => h (List.mem_cons_of_mem c hmem)]
    exact or_iff_right fun hc => h (hc.1 ▸ List.mem_cons_self)

/-- The backslashes in front of a tag are not stray, and in the tag there are none. -/
theorem hasStray_tag_iff (hbody : IsTagBody body) (n : Nat) (rest : Text) :
    HasStray (backslashes n ++ bracketed body ++ rest) ↔ HasStray rest := by
  have hinner (u : Text) (hu : ∀ c ∈ u, c ≠ .char '[') :
      HasStray (u ++ .char ']' :: rest) ↔ HasStray rest := by
    induction u with
    | nil =>
      rw [List.nil_append, hasStray_cons_iff]
      exact or_iff_right fun hc => absurd hc.1 (by decide)
    | cons c u ih =>
      rw [List.cons_append, hasStray_cons_iff, ih fun d hd => hu d (List.mem_cons_of_mem c hd)]
      refine or_iff_right ?_
      rintro ⟨-, after, hafter, -⟩
      cases u with
      | nil => exact absurd (List.cons.inj hafter).1 (by decide)
      | cons d u => exact hu d (List.mem_cons_of_mem c List.mem_cons_self) (List.cons.inj hafter).1
  induction n with
  | zero =>
    obtain ⟨first, more, rfl, hfirst, hmore⟩ := hbody
    have hopen : backslashes 0 ++ bracketed (first :: more) ++ rest =
        [.char '['] ++ ((first :: more) ++ .char ']' :: rest) := by
      simp [bracketed, backslashes]
    rw [hopen, hasStray_append_iff (by decide), hinner]
    exact List.forall_mem_cons.2 ⟨(startsTag_ne hfirst).1, fun c hc => (hmore c hc).1⟩
  | succ n ih =>
    rw [← cons_backslashes, List.cons_append, List.cons_append, hasStray_cons_iff]
    refine (or_iff_right ?_).trans ih
    rintro ⟨-, after, hafter, htag⟩
    cases n with
    | zero =>
      have hopens : tagAt? (bracketed body ++ rest) = some (body, rest) :=
        tagAt?_eq_some_iff.2 ⟨hbody, rfl⟩
      cases htag.symm.trans hopens
    | succ n => exact absurd (List.cons.inj hafter).1 (by decide)

/-- The first piece is a bracket that is no tag's if the text starts with one. -/
theorem head?_pieces (t : Text) : (pieces t).head? = some (.plain (.char '[')) ↔
    ∃ after, t = .char '[' :: after ∧ tagAt? t = none := by
  induction t using pieces_induction with
  | nil => simp
  | tag n body rest hbody _ =>
    rw [pieces_tag hbody]
    refine iff_of_false (by simp) ?_
    rintro ⟨after, hafter, htag⟩
    cases n with
    | zero =>
      have hopens : tagAt? (bracketed body ++ rest) = some (body, rest) :=
        tagAt?_eq_some_iff.2 ⟨hbody, rfl⟩
      cases htag.symm.trans hopens
    | succ n => exact absurd (List.cons.inj hafter).1 (by decide)
  | plain c t h _ =>
    rw [pieces_plain h, List.head?_cons, Option.some.injEq, Piece.plain.injEq]
    constructor
    · rintro rfl
      exact ⟨t, rfl, h⟩
    · rintro ⟨after, hafter, -⟩
      exact (List.cons.inj hafter).1

/-- A text whose tags are made plain is shown as it is if it holds no stray backslash. -/
theorem shown_shielded_eq_iff (t : Text) :
    shown ((pieces t).map Piece.shielded) = t ↔ ¬HasStray t := by
  induction t using pieces_induction with
  | nil =>
    refine iff_of_true rfl ?_
    rintro ⟨after, hsuffix, -⟩
    exact absurd (List.suffix_nil.1 hsuffix) (List.cons_ne_nil _ _)
  | tag n body rest hbody ih =>
    rw [pieces_tag hbody, List.map_cons, Piece.shielded, shown_shielded_tag, Piece.text,
      List.append_cancel_left_eq, ih, hasStray_tag_iff hbody]
  | plain c t h ih =>
    have hhead : ((pieces t).map Piece.shielded).head? = some (.plain (.char '[')) ↔
        ∃ after, t = .char '[' :: after ∧ tagAt? t = none := by
      rw [← head?_pieces, List.head?_map]
      rcases (pieces t).head? with _ | _ | _ <;> simp [Piece.shielded]
    rw [pieces_plain h, List.map_cons, Piece.shielded, hasStray_cons_iff, ← hhead]
    by_cases hstray : c = .char '\\' ∧
        ((pieces t).map Piece.shielded).head? = some (.plain (.char '['))
    · refine iff_of_false ?_ fun hnot => hnot (.inl hstray)
      obtain ⟨rfl, hopen⟩ := hstray
      obtain ⟨more, hmore⟩ := List.head?_eq_some_iff.1 hopen
      rw [hmore, shown]
      exact fun heq => absurd (List.cons.inj heq).1 (by decide)
    · rw [shown_plain fun hc hopen => hstray ⟨hc, hopen⟩, List.cons.injEq, ih]
      simp only [true_and, hstray, false_or]

/-! ## What is shown of escaped text -/

/-- Protected text ends as the text does. -/
theorem getLast?_protect (t : Text) : (protect t).getLast? = t.getLast? := by
  induction t using pieces_induction with
  | nil => rfl
  | tag n body rest hbody ih =>
    have hlast (m : Nat) (u : Text) : (backslashes m ++ bracketed body ++ u).getLast? =
        u.getLast?.or (some (.char ']')) := by
      rw [List.getLast?_append, bracketed, ← List.append_assoc, List.getLast?_concat]
    rw [protect_tag hbody, hlast, hlast, ih]
  | plain c t hplain ih => rw [protect_plain hplain, List.getLast?_cons, List.getLast?_cons, ih]

/-- What may stand behind escaped text: nothing, or a tag. -/
def IsEnding (s : Text) : Prop := s = [] ∨ ∃ body, IsTagBody body ∧ s = bracketed body

/-- Escaped text is shown as it is, if it holds no stray backslash and the backslashes at its end
are shown as they are. -/
theorem shown_escape_append (hs : IsEnding s) (t : Text) :
    shown (pieces (escape t ++ s)) = t ↔ ¬HasStray t ∧
      shown (pieces (backslashes (closedEnd (backslashesAtEnd t)) ++ s)) =
        backslashes (backslashesAtEnd t) := by
  obtain ⟨core, n, rfl, hclear, hpieces⟩ := exists_core t
  rw [backslashesAtEnd_append hclear]
  set ending := backslashes (closedEnd n) ++ s with hending
  have hborder : IsBorder ending := by
    refine ⟨_, s, hending, ?_⟩
    rcases hs with rfl | ⟨body, -, rfl⟩
    · exact .inl rfl
    · exact .inr ⟨_, rfl⟩
  have hhead : (pieces ending).head? ≠ some (.plain (.char '[')) := by
    rw [hending]
    rcases hs with rfl | ⟨body, hbody, rfl⟩
    · rw [List.append_nil, pieces_backslashes, List.head?_replicate]
      split <;> simp
    · rw [← List.append_nil (_ ++ _), pieces_tag hbody]
      simp
  have hescape : escape (core ++ backslashes n) ++ s = protect core ++ ending := by
    have hplain : (List.replicate n (Piece.plain (.char '\\'))).flatMap Piece.escaped =
        backslashes n := by
      rw [List.flatMap_replicate, Piece.escaped, List.flatten_replicate_singleton, backslashes]
    have hkept : EndsClear (protect core) := by rwa [EndsClear, getLast?_protect]
    rw [escape_eq, protect, hpieces, List.flatMap_append, hplain, ← protect, closeEnd_append hkept,
      List.append_assoc]
  have hcore : ¬HasStray (core ++ backslashes n) ↔
      shown ((pieces core).map Piece.shielded) = core := by
    rw [← shown_shielded_eq_iff, hpieces, List.map_append, List.map_replicate, Piece.shielded,
      shown_append, shown_replicate, List.append_left_inj]
    rw [List.head?_replicate]
    split <;> simp
  rw [hescape, pieces_protect_append hclear hborder, shown_append hhead, hcore]
  constructor
  · intro h
    have hboth := shown_shielded_of_append (by rwa [flatMap_text_pieces])
    rwa [flatMap_text_pieces] at hboth
  · rintro ⟨hshown, hend⟩
    rw [hshown, hend]

/-- Escaped text that nothing follows is shown as it is, unless a backslash in it is stray or it
ends in exactly one, which is doubled. -/
theorem shown_escape_eq_iff (t : Text) :
    shown (pieces (escape t)) = t ↔ ¬HasStray t ∧ backslashesAtEnd t ≠ 1 := by
  have h := shown_escape_append (.inl rfl) t
  rw [List.append_nil, List.append_nil, pieces_backslashes, shown_replicate] at h
  rw [h, closedEnd]
  refine and_congr_right fun _ => ?_
  rw [backslashes, backslashes, List.replicate_left_inj]
  split <;> omega

/-- Escaped text that a tag follows is shown as it is, unless a backslash in it is stray or it ends
in more than one, of which half are shown, and the tag if they are odd. -/
theorem shown_escape_append_eq_iff (hbody : IsTagBody body) (t : Text) :
    shown (pieces (escape t ++ bracketed body)) = t ↔
      ¬HasStray t ∧ backslashesAtEnd t ≤ 1 := by
  have hpieces (n : Nat) : shown (pieces (backslashes n ++ bracketed body)) =
      backslashes (n / 2) ++ if n % 2 = 1 then bracketed body else [] := by
    have htag := pieces_tag hbody n []
    rw [List.append_nil] at htag
    rw [htag, pieces_nil, shown, shown, List.append_nil]
  rw [shown_escape_append (.inr ⟨body, hbody, rfl⟩), hpieces]
  refine and_congr_right fun _ => ?_
  generalize backslashesAtEnd t = n
  by_cases hodd : closedEnd n % 2 = 1
  · rw [if_pos hodd]
    refine iff_of_false (fun h => ?_) ?_
    · have hopen : .char '[' ∈ backslashes n := by
        rw [← h]
        exact List.mem_append_right _ List.mem_cons_self
      exact absurd (List.eq_of_mem_replicate hopen) (by decide)
    · rw [closedEnd] at hodd
      split at hodd <;> omega
  · rw [if_neg hodd, List.append_nil, backslashes, backslashes, List.replicate_left_inj]
    rw [closedEnd] at hodd ⊢
    split_ifs at hodd ⊢ <;> omega

/-- Escaping adds backslashes only. -/
theorem mem_of_mem_escape {t : Text} {c : CodePoint} (h : c ∈ escape t) :
    c ∈ t ∨ c = .char '\\' := by
  have hprotect : ∀ t, c ∈ protect t → c ∈ t ∨ c = .char '\\' := by
    intro t h
    induction t using pieces_induction with
    | nil => cases h
    | tag n body rest hbody ih =>
      rw [protect_tag hbody] at h
      simp only [List.mem_append] at h ⊢
      rcases h with (h | h) | h
      · exact .inr (List.eq_of_mem_replicate h)
      · exact .inl (.inl (.inr h))
      · exact (ih h).imp_left .inr
    | plain d t hplain ih =>
      rw [protect_plain hplain] at h
      rcases List.mem_cons.1 h with rfl | h
      · exact .inl List.mem_cons_self
      · exact (ih h).imp_left (List.mem_cons_of_mem d)
  rw [escape_eq, closeEnd] at h
  split at h
  · rcases List.mem_append.1 h with h | h
    · exact hprotect t h
    · exact .inr (List.mem_singleton.1 h)
  · exact hprotect t h

/-- Text without backslashes in front of a text changes nothing at its end. -/
theorem backslashesAtEnd_append_of_clear {s : Text} (h : .char '\\' ∉ s) (t : Text) :
    backslashesAtEnd (s ++ t) = backslashesAtEnd t := by
  have hnone : s.reverse.takeWhile isBackslash = [] := by
    rcases hreverse : s.reverse with _ | ⟨c, u⟩
    · rfl
    · refine List.takeWhile_cons_of_neg fun hc => h ?_
      rw [← List.mem_reverse, hreverse]
      simp_all [isBackslash]
  rw [backslashesAtEnd, List.reverse_append, List.takeWhile_append, hnone, List.append_nil]
  split
  · rename_i hall
    rw [backslashesAtEnd, hall]
  · rfl

end ProviderKit.Markup
