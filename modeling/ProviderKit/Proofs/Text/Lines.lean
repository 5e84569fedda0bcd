import Mathlib.Tactic.SplitIfs
import ProviderKit.Text.Blank
import ProviderKit.Text.Lines
import ProviderKit.Proofs.Text.Pieces

/-!
# Lines and their ends

The lines of a text hold no line end (`not_lineEnd_of_mem_lines`). Of two texts in a row, the first
one is trimmed only where the second one is blank (`trimEnd_append`). Texts that are put one after
the other with a separator behind each are found again (`split_flatMap`). A text that is put
together of whole lines has the lines of its parts, one after the other (`endedLines_flatMap`).
-/

namespace ProviderKit.Text

/-! ## The lines of a text -/

/-- A line holds no line end, when what was read of it holds none. -/
theorem not_lineEnd_of_mem_linesFrom {read : Text}
    (hread : ∀ c ∈ read, c.satisfies Char.isLineEnd = false) {t line : Text}
    (h : line ∈ linesFrom read t) : ∀ c ∈ line, c.satisfies Char.isLineEnd = false := by
  -- Along the text: a line that ends is what was read, and after it nothing has been read.
  fun_induction linesFrom read t with
  | case1 read hempty => cases h
  | case2 read hsome =>
    obtain rfl := List.mem_singleton.1 h
    intro c hc
    exact hread c (List.mem_reverse.1 hc)
  | case3 read t ih =>
    rcases List.mem_cons.1 h with rfl | hlater
    · intro c hc
      exact hread c (List.mem_reverse.1 hc)
    · exact ih (by simp) hlater
  | case4 read c t hcrlf hend ih =>
    rcases List.mem_cons.1 h with rfl | hlater
    · intro c hc
      exact hread c (List.mem_reverse.1 hc)
    · exact ih (by simp) hlater
  | case5 read c t hcrlf hother ih =>
    have hmore : ∀ d ∈ c :: read, d.satisfies Char.isLineEnd = false := by
      intro d hd
      rcases List.mem_cons.1 hd with rfl | hd
      · exact Bool.eq_false_iff.2 hother
      · exact hread d hd
    exact ih hmore h

/-- No line of a text holds a line end. -/
theorem not_lineEnd_of_mem_lines {t line : Text} (h : line ∈ t.lines) :
    ∀ c ∈ line, c.satisfies Char.isLineEnd = false := by
  apply not_lineEnd_of_mem_linesFrom _ h
  intro c hc
  cases hc

/-- In particular it holds no line feed. -/
theorem not_lineFeed_of_mem_lines {t line : Text} (h : line ∈ t.lines) :
    CodePoint.char '\n' ∉ line := by
  intro hmem
  have hend := not_lineEnd_of_mem_lines h _ hmem
  exact absurd hend (by decide)

/-! ## Trimming -/

/-- What is left of a text that was trimmed is its beginning. -/
theorem trimEnd_subset (t : Text) : t.trimEnd ⊆ t := by
  intro c hc
  have hrest : c ∈ t.reverse.dropWhile CodePoint.isBlank := List.mem_reverse.1 hc
  exact List.mem_reverse.1 ((List.dropWhile_sublist _).subset hrest)

/-- Trimming goes on into a first text only if the second one is blank. -/
theorem trimEnd_append (s t : Text) :
    (s ++ t).trimEnd = if t.trimEnd = [] then s.trimEnd else s ++ t.trimEnd := by
  unfold trimEnd
  rw [List.reverse_append, List.dropWhile_append]
  simp only [List.isEmpty_iff, List.reverse_eq_nil_iff]
  split_ifs with hblank
  · rfl
  · rw [List.reverse_append, List.reverse_reverse]

/-! ## Texts with a separator behind each -/

/-- Texts without a separator, each followed by one, are the pieces in front of the last one, which
is empty. -/
theorem split_flatMap {sep : CodePoint} {pieces : List Text} (h : ∀ piece ∈ pieces, sep ∉ piece) :
    split sep (pieces.flatMap (· ++ [sep])) = pieces ++ [[]] := by
  induction pieces with
  | nil => rfl
  | cons piece pieces ih =>
    have hpiece := h piece List.mem_cons_self
    have hrest := ih fun p hp => h p (List.mem_cons_of_mem _ hp)
    calc split sep ((piece :: pieces).flatMap (· ++ [sep]))
        = split sep (piece ++ sep :: pieces.flatMap (· ++ [sep])) := by
          rw [List.flatMap_cons, List.append_assoc]
          rfl
      _ = piece :: split sep (pieces.flatMap (· ++ [sep])) := split_append_cons hpiece _
      _ = piece :: pieces ++ [[]] := by
          rw [hrest]
          rfl

/-! ## Whole lines -/

/-- The lines of a text that end with a line feed. -/
def endedLines (t : Text) : List Text := (split (.char '\n') t).dropLast

/-- The text is empty, or its last line is ended by a line feed. -/
def IsWhole (t : Text) : Prop := t = [] ∨ ∃ s, t = s ++ [.char '\n']

/-- A separator parts the pieces in front of it from those behind it. -/
theorem split_append_sep (sep : CodePoint) (s t : Text) :
    split sep (s ++ sep :: t) = split sep s ++ split sep t := by
  induction s with
  | nil =>
    calc split sep (sep :: t) = [] :: split sep t := by rw [split, if_pos rfl]
      _ = split sep [] ++ split sep t := rfl
  | cons c s ih =>
    rw [List.cons_append, split, split]
    by_cases hsep : c = sep
    · rw [if_pos hsep, if_pos hsep, ih, List.cons_append]
    · rw [if_neg hsep, if_neg hsep, ih]
      rcases hs : split sep s with _ | ⟨piece, pieces⟩
      · exact absurd hs (split_ne_nil sep s)
      · rfl

/-- A text that ends with a line feed is whole. -/
theorem isWhole_concat (s : Text) : IsWhole (s ++ "\n") := .inr ⟨s, rfl⟩

/-- Whether a text ends with a line feed is seen at its end. -/
theorem isWhole_of_hasSuffix {t : Text} (h : t.hasSuffix "\n" = true) : IsWhole t := by
  unfold hasSuffix hasPrefix at h
  rcases hreverse : t.reverse with _ | ⟨c, s⟩
  · exact .inl (List.reverse_eq_nil_iff.1 hreverse)
  rw [hreverse] at h
  have hc : c = .char '\n' := by
    rw [show (ofString "\n").reverse = [.char '\n'] from rfl, dropPrefix?] at h
    split at h
    next heq => exact heq
    next => cases h
  exact .inr ⟨s.reverse, by rw [← List.reverse_reverse t, hreverse, hc, List.reverse_cons]⟩

/-- Behind whole lines the lines of a text are its own. -/
theorem endedLines_append {s : Text} (h : s.IsWhole) (t : Text) :
    (s ++ t).endedLines = s.endedLines ++ t.endedLines := by
  rcases h with rfl | ⟨s, rfl⟩
  · rfl
  unfold endedLines
  calc (split (.char '\n') (s ++ [.char '\n'] ++ t)).dropLast
      = (split (.char '\n') s ++ split (.char '\n') t).dropLast := by
        rw [List.append_assoc, List.singleton_append, split_append_sep]
    _ = split (.char '\n') s ++ (split (.char '\n') t).dropLast :=
        List.dropLast_append_of_ne_nil (split_ne_nil _ t)
    _ = (split (.char '\n') (s ++ [.char '\n'])).dropLast ++ (split (.char '\n') t).dropLast := by
        rw [split_append_sep, split, List.dropLast_concat]

/-- The lines of whole texts are those of the first one, those of the second one, and so on. -/
theorem endedLines_flatMap {α : Type} {f : α → Text} {items : List α}
    (h : ∀ item ∈ items, (f item).IsWhole) :
    endedLines (items.flatMap f) = items.flatMap fun item => (f item).endedLines := by
  induction items with
  | nil => rfl
  | cons item items ih =>
    have hrest := ih fun other hother => h other (List.mem_cons_of_mem _ hother)
    rw [List.flatMap_cons, endedLines_append (h item List.mem_cons_self), hrest, List.flatMap_cons]

/-! ## Beginnings -/

/-- A beginning is found in front. -/
theorem dropPrefix?_append (p t : Text) : dropPrefix? (p ++ t) p = some t := by
  induction p with
  | nil =>
    rw [List.nil_append]
    cases t <;> rfl
  | cons c p ih => rw [List.cons_append, dropPrefix?, if_pos rfl, ih]

/-- What is found behind a beginning makes up the text with it. -/
theorem dropPrefix?_eq_some_iff {t p rest : Text} :
    dropPrefix? t p = some rest ↔ t = p ++ rest := by
  constructor
  · intro h
    induction p generalizing t with
    | nil =>
      cases t <;> exact Option.some.inj h
    | cons c p ih =>
      cases t with
      | nil => cases h
      | cons first t =>
        rw [dropPrefix?] at h
        split at h
        next heq => rw [heq, ih h, List.cons_append]
        next => cases h
  · rintro rfl
    exact dropPrefix?_append p rest

end ProviderKit.Text
