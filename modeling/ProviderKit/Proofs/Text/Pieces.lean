import ProviderKit.Text.Basic

/-!
# Pieces of texts

`Text.split` takes apart what `Text.join` has put together, as long as no piece holds the separator
(`split_join`), and no piece that it gives holds it (`not_mem_of_mem_split`).
-/

namespace ProviderKit.Text

variable {sep : CodePoint} {t : Text} {pieces : List Text}

/-- A text without a separator is all in one piece. -/
theorem split_of_not_mem (h : sep ∉ t) : split sep t = [t] := by
  induction t with
  | nil => rfl
  | cons c t ih =>
    rw [List.mem_cons, not_or] at h
    rw [split, if_neg (Ne.symm h.1), ih h.2]

/-- The first piece ends at the first separator. -/
theorem split_append_cons (h : sep ∉ t) (rest : Text) :
    split sep (t ++ sep :: rest) = t :: split sep rest := by
  induction t with
  | nil => rw [List.nil_append, split, if_pos rfl]
  | cons c t ih =>
    rw [List.mem_cons, not_or] at h
    rw [List.cons_append, split, if_neg (Ne.symm h.1), ih h.2]

/-- Between a piece and the next one there is a separator. -/
theorem join_cons (piece next : Text) (rest : List Text) :
    join [sep] (piece :: next :: rest) = piece ++ sep :: join [sep] (next :: rest) := by
  rw [join, List.append_assoc]
  · rfl
  · exact List.cons_ne_nil _ _

/-- A text that was joined is split into its pieces. -/
theorem split_join (hpieces : ∀ piece ∈ pieces, sep ∉ piece) (hsome : pieces ≠ []) :
    split sep (join [sep] pieces) = pieces := by
  induction pieces with
  | nil => exact absurd rfl hsome
  | cons piece pieces ih =>
    have hpiece := hpieces piece List.mem_cons_self
    cases pieces with
    | nil => exact split_of_not_mem hpiece
    | cons next pieces =>
      have hrest := ih (fun p hp => hpieces p (List.mem_cons_of_mem _ hp)) (List.cons_ne_nil _ _)
      calc split sep (join [sep] (piece :: next :: pieces))
          = split sep (piece ++ sep :: join [sep] (next :: pieces)) := by rw [join_cons]
        _ = piece :: split sep (join [sep] (next :: pieces)) := split_append_cons hpiece _
        _ = piece :: next :: pieces := by rw [hrest]

/-- There is always a piece. -/
theorem split_ne_nil (sep : CodePoint) (t : Text) : split sep t ≠ [] := by
  cases t with
  | nil => exact List.cons_ne_nil _ _
  | cons c t =>
    rw [split]
    split
    · exact List.cons_ne_nil _ _
    · split <;> exact List.cons_ne_nil _ _

/-- A piece holds nothing but what the text holds. -/
theorem subset_of_mem_split {piece : Text} (h : piece ∈ split sep t) : piece ⊆ t := by
  induction t generalizing piece with
  | nil =>
    obtain rfl := List.mem_singleton.1 h
    exact List.Subset.refl _
  | cons c t ih =>
    rw [split] at h
    split at h
    · rcases List.mem_cons.1 h with rfl | hrest
      · exact List.nil_subset _
      · exact List.Subset.trans (ih hrest) (List.subset_cons_self _ _)
    · rcases hsplit : split sep t with _ | ⟨first, rest⟩
      · exact absurd hsplit (split_ne_nil sep t)
      rw [hsplit] at h ih
      rcases List.mem_cons.1 h with rfl | hrest
      · exact List.cons_subset_cons _ (ih List.mem_cons_self)
      · exact List.Subset.trans (ih (List.mem_cons_of_mem _ hrest)) (List.subset_cons_self _ _)

/-- What a text holds is a separator, or in a piece. -/
theorem mem_split {c : CodePoint} (h : c ∈ t) : c = sep ∨ ∃ piece ∈ split sep t, c ∈ piece := by
  induction t with
  | nil => cases h
  | cons first t ih =>
    rw [split]
    split
    next heq =>
      rcases List.mem_cons.1 h with rfl | hrest
      · exact .inl heq
      · exact (ih hrest).imp_right fun ⟨piece, hpiece, hc⟩ =>
          ⟨piece, List.mem_cons_of_mem _ hpiece, hc⟩
    next =>
      rcases hsplit : split sep t with _ | ⟨piece, pieces⟩
      · exact absurd hsplit (split_ne_nil sep t)
      rw [hsplit] at ih
      rcases List.mem_cons.1 h with rfl | hrest
      · exact .inr ⟨_, List.mem_cons_self, List.mem_cons_self⟩
      · refine (ih hrest).imp_right fun ⟨other, hother, hc⟩ => ?_
        rcases List.mem_cons.1 hother with rfl | hmore
        · exact ⟨_, List.mem_cons_self, List.mem_cons_of_mem _ hc⟩
        · exact ⟨other, List.mem_cons_of_mem _ hmore, hc⟩

/-- The code points of a text that was joined are those of its pieces and the separators. -/
theorem mem_join {c : CodePoint} (h : c ∈ join [sep] pieces) :
    c = sep ∨ ∃ piece ∈ pieces, c ∈ piece := by
  induction pieces with
  | nil => cases h
  | cons piece pieces ih =>
    cases pieces with
    | nil => exact .inr ⟨piece, List.mem_cons_self, h⟩
    | cons next pieces =>
      rw [join_cons, List.mem_append, List.mem_cons] at h
      rcases h with hpiece | rfl | hrest
      · exact .inr ⟨piece, List.mem_cons_self, hpiece⟩
      · exact .inl rfl
      · obtain rfl | ⟨other, hother, hc⟩ := ih hrest
        · exact .inl rfl
        · exact .inr ⟨other, List.mem_cons_of_mem _ hother, hc⟩

/-- A text that was joined holds what its pieces hold. -/
theorem subset_join {piece : Text} (h : piece ∈ pieces) : piece ⊆ join [sep] pieces := by
  induction pieces with
  | nil => cases h
  | cons first pieces ih =>
    cases pieces with
    | nil =>
      obtain rfl := List.mem_singleton.1 h
      exact List.Subset.refl _
    | cons next pieces =>
      rw [join_cons]
      rcases List.mem_cons.1 h with rfl | hmore
      · exact List.subset_append_left _ _
      · exact fun c hc => List.mem_append_right _ (List.mem_cons_of_mem _ (ih hmore hc))

/-- The first code point of a text that was joined is that of its first piece, if that is not
empty. -/
theorem join_cons_cons (c : CodePoint) (piece : Text) (pieces : List Text) :
    join [sep] ((c :: piece) :: pieces) = c :: join [sep] (piece :: pieces) := by
  cases pieces <;> rfl

/-- A text that was split is its pieces again with separators between them. -/
theorem join_split (sep : CodePoint) (t : Text) : join [sep] (split sep t) = t := by
  induction t with
  | nil => rfl
  | cons c t ih =>
    rcases hsplit : split sep t with _ | ⟨piece, pieces⟩
    · exact absurd hsplit (split_ne_nil sep t)
    rw [hsplit] at ih
    by_cases hsep : c = sep
    · rw [split, if_pos hsep, hsplit, join_cons, ih, List.nil_append, hsep]
    · have hcons : split sep (c :: t) = (c :: piece) :: pieces := by
        rw [split, if_neg hsep, hsplit]
      rw [hcons, join_cons_cons, ih]

/-- A text that was joined ends with its last piece. -/
theorem join_concat (first : Text) (rest : List Text) (last : Text) :
    join [sep] (first :: rest ++ [last]) = join [sep] (first :: rest) ++ sep :: last := by
  induction rest generalizing first with
  | nil => simp [join]
  | cons next rest ih =>
    calc join [sep] (first :: next :: rest ++ [last])
        = first ++ sep :: join [sep] (next :: rest ++ [last]) := join_cons _ _ _
      _ = first ++ sep :: (join [sep] (next :: rest) ++ sep :: last) := by rw [ih]
      _ = join [sep] (first :: next :: rest) ++ sep :: last := by
          rw [join_cons, List.append_assoc, List.cons_append]

end ProviderKit.Text
