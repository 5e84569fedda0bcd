import ProviderKit.Proofs.Console.Escape
import ProviderKit.Proofs.Console.Wrapping

/-!
# Messages shown as they are

A console that is not plain puts the text of a message into markup, escaped, and shows what the
markup says. `Message.shown_eq_line_iff` says for which messages that is the line of the message:
those whose text holds no stray backslash, and at its end no more backslashes than `Markup.escape`
takes care of. `Console.write_eq_line` is the same of what is written of a message that fits the
width of the console and has no code for an emoji.
-/

namespace ProviderKit

namespace Markup

/-- Nothing between two colons of the text is the code of an emoji. -/
def IsCodeFree (emoji : Text → Option Text) (t : Text) : Prop :=
  ∀ before body after, t = before ++ .char ':' :: (body ++ .char ':' :: after) → emoji body = none

variable {emoji : Text → Option Text}

/-- Neither has a part of it. -/
theorem IsCodeFree.part (before after : Text) {part : Text}
    (h : IsCodeFree emoji (before ++ part ++ after)) : IsCodeFree emoji part := by
  rintro front body back rfl
  exact h (before ++ front) body (back ++ after) (by simp)

/-- A code ends with the next colon. -/
theorem codeBody_eq_some {t body rest : Text} (h : codeBody t = some (body, rest)) :
    t = body ++ .char ':' :: rest := by
  induction t generalizing body with
  | nil => cases h
  | cons c t ih =>
    rw [codeBody.eq_def] at h
    split at h
    · cases h
    next heq =>
      cases heq
      cases h
      rfl
    next heq =>
      cases heq
      split at h
      · cases h
      · obtain ⟨⟨more, last⟩, hmore, hcons⟩ := Option.map_eq_some_iff.1 h
        cases hcons
        rw [ih hmore]
        rfl

/-- A text without codes is kept as it is. -/
theorem replaceCodes_eq_self {t : Text} (h : IsCodeFree emoji t) (fuel : Nat) :
    replaceCodes emoji fuel t = t := by
  induction fuel generalizing t with
  | zero => rw [replaceCodes]
  | succ fuel ih =>
    cases t with
    | nil => rw [replaceCodes]
    | cons c t =>
      rw [replaceCodes]
      split
      next body rest hcode =>
        split at hcode
        next hcolon =>
          obtain rfl := hcolon
          obtain rfl := codeBody_eq_some hcode
          have hrest : IsCodeFree emoji rest :=
            .part (.char ':' :: body ++ [.char ':']) [] (by simpa using h)
          rw [h [] body rest rfl, ih hrest]
          simp
        next => cases hcode
      next =>
        have hrest : IsCodeFree emoji t :=
          .part [c] [] (by simpa using h)
        rw [ih hrest]

/-- Where what items say has no codes, nothing is put in the place of one. -/
theorem textOf_withEmoji {styles : List (Option Style)} {items : List Item}
    (h : IsCodeFree emoji ((textOf styles items).map Cell.code)) :
    textOf styles (items.map (Item.withEmoji emoji)) = textOf styles items := by
  induction items generalizing styles with
  | nil => rfl
  | cons item items ih =>
    cases item with
    | text t =>
      rw [textOf, List.map_append, List.map_map] at h
      have hcodes : (Cell.code ∘ fun code : CodePoint =>
          ({ code, style := (styles.find? Option.isSome).join } : Cell)) = id := rfl
      rw [hcodes, List.map_id] at h
      have htext : IsCodeFree emoji t := .part [] _ (by simpa using h)
      have hrest : IsCodeFree emoji ((textOf styles items).map Cell.code) :=
        .part _ [] (by simpa using h)
      rw [List.map_cons, Item.withEmoji, textOf, textOf, replaceCodes_eq_self htext, ih hrest]
    | openTag style | closeTag style => exact ih h

end Markup

namespace Console

/-- Each character of the text is written: none is a tab, which is filled up, and none moves the
cursor. -/
def IsPrinted (t : Text) : Prop := ∀ c ∈ t, c ≠ .char '\t' ∧ isControl c = false

instance (t : Text) : Decidable (IsPrinted t) := inferInstanceAs (Decidable (∀ c ∈ t, _))

theorem isPrinted_append {s t : Text} (hs : IsPrinted s) (ht : IsPrinted t) :
    IsPrinted (s ++ t) :=
  List.forall_mem_append.2 ⟨hs, ht⟩

/-- Text each character of which is written is drawn as it is. -/
theorem drawn_of_isPrinted {t : StyledText} (h : IsPrinted (t.map Cell.code)) : drawn t = t := by
  have hcell : ∀ cell ∈ t, cell.code ≠ .char '\t' ∧ isControl cell.code = false :=
    fun cell hmem => h _ (List.mem_map_of_mem hmem)
  have hfilter : (t.filter fun c => !isControl c.code) = t :=
    List.filter_eq_self.2 fun cell hmem => by rw [(hcell cell hmem).2]; rfl
  rw [drawn, hfilter, Wrap.expandTabs_of_not_mem fun cell hmem => (hcell cell hmem).1]

/-- Escaped text is written if the text is. -/
theorem isPrinted_escape {t : Text} (h : IsPrinted t) : IsPrinted (Markup.escape t) := by
  intro c hc
  rcases Markup.mem_of_mem_escape hc with hc | rfl
  · exact h c hc
  · decide

end Console

open Console (IsPrinted isPrinted_append isPrinted_escape)

namespace Message

variable {m : Message}

/-- The text of a message. -/
def text : Message → Text
  | info t | success t | warning t | error t | suggest t | debug t => t
  | toolOutput t | data t | notice t | page t | log t => t

/-- A tag stands behind the text of such a message. -/
def isTagged : Message → Bool
  | success _ | suggest _ | debug _ => true
  | info _ | warning _ | error _ => false
  | toolOutput _ | data _ | notice _ | page _ | log _ => false

/-- The message is shown as it is. -/
structure IsLiteral (m : Message) : Prop where
  /-- Tabs are filled up, and characters that move the cursor are not written. -/
  printed : IsPrinted m.text
  /-- A backslash in front of a bracket that opens no tag is not shown. -/
  noStray : ¬Markup.HasStray m.text
  /-- A backslash at the end is doubled, of which a tag takes half; if there are more of them, none
  is doubled. -/
  ending : if m.isTagged then Markup.backslashesAtEnd m.text ≤ 1
    else Markup.backslashesAtEnd m.text ≠ 1

/-- What the markup of a message says. -/
def said (m : Message) : Text := (Markup.read m.markup).map Cell.code

/-- What a message is shown as by a console that is wide enough for it. -/
def shown (m : Message) : Text := (Console.drawn (Markup.read m.markup)).map Cell.code

open Markup in
/-- The markup of a message says its line, unless backslashes of its text come in the way. -/
theorem map_code_read_markup_eq_iff (h : m.isRaw = false) :
    (read m.markup).map Cell.code = m.line ↔ ¬HasStray m.text ∧
      if m.isTagged then backslashesAtEnd m.text ≤ 1 else backslashesAtEnd m.text ≠ 1 := by
  rw [map_code_read]
  cases m with
  | info t => exact shown_escape_eq_iff t
  | success t =>
    change Markup.shown (pieces (wrapped .green (escape t))) = t ↔ _
    rw [wrapped, List.append_assoc, shown_bracketed_append (isTagBody_tag _)]
    exact shown_escape_append_eq_iff (isTagBody_close _) t
  | warning t =>
    change Markup.shown (pieces (wrapped .yellow "Warning:" ++ " " ++ escape t)) =
      "Warning: " ++ t ↔ _
    rw [shown_named_append _ (by decide)]
    exact (List.append_right_inj _).trans (shown_escape_eq_iff t)
  | error t =>
    change Markup.shown (pieces (wrapped .boldRed "Error:" ++ " " ++ escape t)) =
      "Error: " ++ t ↔ _
    rw [shown_named_append _ (by decide)]
    exact (List.append_right_inj _).trans (shown_escape_eq_iff t)
  | suggest t =>
    change Markup.shown (pieces (wrapped .dim (escape (arrow ++ t)))) = arrow ++ t ↔ _
    rw [wrapped, List.append_assoc, shown_bracketed_append (isTagBody_tag _),
      shown_escape_append_eq_iff (isTagBody_close _), hasStray_append_iff (by decide),
      backslashesAtEnd_append_of_clear (by decide)]
    rfl
  | debug t =>
    change Markup.shown (pieces (wrapped .dim ("\\[debug] " ++ escape t))) = "[debug] " ++ t ↔ _
    -- The mark of a detail has a backslash of its own in front of its bracket.
    have hmark : Text.ofString "\\[debug] " = backslashes 1 ++ bracketed "debug" ++ " " := rfl
    have hdebug : IsTagBody "debug" := ⟨_, _, rfl, by decide, by decide⟩
    rw [wrapped, List.append_assoc, shown_bracketed_append (isTagBody_tag _), hmark,
      List.append_assoc, List.append_assoc _ (Text.ofString " "), pieces_tag hdebug,
      Markup.shown, shown_append_of_clear (by decide), ← List.append_assoc]
    exact (List.append_right_inj _).trans (shown_escape_append_eq_iff (isTagBody_close _) t)
  | _ => cases h

/-- The markup of a message adds nothing that is not written. -/
theorem isPrinted_markup (h : IsPrinted m.text) : IsPrinted m.markup := by
  have hescape := isPrinted_escape h
  have harrow : IsPrinted (Markup.escape (arrow ++ m.text)) :=
    isPrinted_escape (isPrinted_append (by decide) h)
  cases m with
  | info t | data t | toolOutput t | notice t | page t | log t => exact hescape
  | success t => exact isPrinted_append (isPrinted_append (by decide) hescape) (by decide)
  | warning t | error t => exact isPrinted_append (by decide) hescape
  | suggest t => exact isPrinted_append (isPrinted_append (by decide) harrow) (by decide)
  | debug t =>
    have hmarked : IsPrinted ("\\[debug] " ++ Markup.escape t) :=
      isPrinted_append (by decide) hescape
    exact isPrinted_append (isPrinted_append (by decide) hmarked) (by decide)

/-- Nothing is read from the markup of a message that is not written. -/
theorem isPrinted_read (h : IsPrinted m.text) :
    IsPrinted ((Markup.read m.markup).map Cell.code) := by
  intro c hc
  refine isPrinted_markup h c ?_
  rw [Markup.map_code_read] at hc
  rw [← Markup.flatMap_text_pieces m.markup]
  exact Markup.mem_of_mem_shown hc

/-- The text of a message is in its line. -/
theorem text_subset_line (m : Message) : m.text ⊆ m.line := by
  cases m with
  | info t | success t | data t | toolOutput t | notice t | page t => exact List.Subset.refl t
  | warning t | error t | suggest t | debug t | log t => exact List.subset_append_right _ t

/-- A message is shown as its line exactly if its text needs no more than what escaping does. -/
theorem shown_eq_line_iff (h : m.isRaw = false) : m.shown = m.line ↔ m.IsLiteral := by
  have hread (hprinted : IsPrinted m.text) : m.shown = (Markup.read m.markup).map Cell.code :=
    congrArg _ (Console.drawn_of_isPrinted (isPrinted_read hprinted))
  constructor
  · intro hshown
    have hprinted : IsPrinted m.text := by
      intro c hc
      rcases eq_or_ne c (.char ' ') with rfl | hspace
      · decide
      have hmem := hshown ▸ text_subset_line m hc
      obtain ⟨hmem, htab⟩ := (Wrap.mem_code_expandTabs hspace).1 hmem
      obtain ⟨cell, hcell, rfl⟩ := List.mem_map.1 hmem
      exact ⟨htab, by simpa using (List.mem_filter.1 hcell).2⟩
    obtain ⟨hstray, hend⟩ := (map_code_read_markup_eq_iff h).1 ((hread hprinted).symm.trans hshown)
    exact ⟨hprinted, hstray, hend⟩
  · intro hliteral
    exact (hread hliteral.printed).trans
      ((map_code_read_markup_eq_iff h).2 ⟨hliteral.noStray, hliteral.ending⟩)

end Message

namespace Console

variable {c : Console} {m : Message}

/-- The text fits the console as one line. -/
structure Fits (c : Console) (t : Text) : Prop where
  /-- The console has columns. -/
  width_pos : 0 < c.width
  /-- The text is a single line. -/
  oneLine : .char '\n' ∉ t
  /-- There are columns enough. -/
  columns_le : t.columns ≤ c.width
  /-- Where more code points than columns stand on a line, white space at its end is cut. -/
  solid : t.length ≤ c.width ∨ ∀ d, t.getLast? = some d → d.isBlank = false

/-- What a console that is not plain writes of a message is what the message is shown as, if that
fits. -/
theorem write_of_fits_shown (hplain : c.plain = false) (hcoloured : c.coloured = false)
    (hshows : c.shows m = true) (hraw : m.isRaw = false)
    (hcodes : Markup.IsCodeFree c.emoji m.said) (hfits : c.Fits m.shown) :
    c.write m = { error := m.shown ++ "\n" } := by
  have hread : c.read m.markup = Markup.read m.markup := Markup.textOf_withEmoji hcodes
  have hwrite : c.write m = { error := c.render (Markup.read m.markup) } := by
    cases m with
    | toolOutput t | data t | notice t | page t | log t => cases hraw
    | info t | success t | warning t | error t | suggest t | debug t =>
      simp [write, hshows, hplain, hread]
  have hline : ∀ d ∈ drawn (Markup.read m.markup), d.code ≠ .char '\n' :=
    fun d hd hbreak => hfits.oneLine (List.mem_map.2 ⟨d, hd, hbreak⟩)
  have hsolid : Wrap.Fits c.width (drawn (Markup.read m.markup)) := by
    refine ⟨hfits.columns_le, ?_⟩
    rcases hfits.solid with hlength | hlast
    · exact .inl (by rwa [Message.shown, List.length_map] at hlength)
    · refine .inr fun cell hcell => hlast cell.code ?_
      rw [Message.shown, List.getLast?_map, hcell]
      rfl
  rw [hwrite, render_of_fits hcoloured hfits.width_pos hline hsolid, Message.shown]

/-- Without colour, a console that is not plain writes a message that fits it, and that has no code
for an emoji, as the line of the message, unless the text of the message holds a tab, a character
that moves the cursor, a stray backslash, or, at its end, backslashes that escaping does not take
care of: then it writes something else. -/
theorem write_eq_line (hplain : c.plain = false) (hcoloured : c.coloured = false)
    (hshows : c.shows m = true) (hraw : m.isRaw = false)
    (hcodes : Markup.IsCodeFree c.emoji m.said) :
    (m.IsLiteral → c.Fits m.line → c.write m = { error := m.line ++ "\n" }) ∧
      (¬m.IsLiteral → c.Fits m.shown → c.write m ≠ { error := m.line ++ "\n" }) := by
  have hshown := Message.shown_eq_line_iff hraw
  constructor
  · intro hliteral hfits
    rw [← hshown.2 hliteral] at hfits ⊢
    exact write_of_fits_shown hplain hcoloured hshows hraw hcodes hfits
  · intro hnot hfits heq
    rw [write_of_fits_shown hplain hcoloured hshows hraw hcodes hfits] at heq
    exact hnot (hshown.1 (List.append_cancel_right (Output.mk.inj heq).2))

/-- A console that is as wide as usual and says all it is told. -/
def usualRich : Console := { plain := false, verbose := true }

/-- A text that is full of brackets and backslashes and is shown as it is. -/
theorem isLiteral_brackets : (Message.debug "[b]\\[/b] [0] a\\b [ \\").IsLiteral where
  printed := by decide
  noStray := (Markup.shown_shielded_eq_iff _).1 (by decide)
  ending := by decide

/-- The text full of brackets fits a usual console, and is written as it is. -/
theorem write_eq_line_brackets :
    usualRich.write (.debug "[b]\\[/b] [0] a\\b [ \\") =
      { error := "[debug] [b]\\[/b] [0] a\\b [ \\" ++ "\n" } :=
  (write_eq_line rfl rfl rfl rfl fun _ _ _ _ => rfl).1 isLiteral_brackets
    ⟨by decide, by decide, by decide, .inl (by decide)⟩

/-- A text that ends in three backslashes fits and is not written as it is: one backslash is left,
and the tag behind the text, whose bracket the other two protect, is shown. -/
theorem write_shows_tag :
    usualRich.Fits (Message.success "a\\\\\\").line ∧
      usualRich.write (.success "a\\\\\\") = { error := "a\\[/green]" ++ "\n" } ∧
      usualRich.write (.success "a\\\\\\") ≠ { error := "a\\\\\\" ++ "\n" } :=
  ⟨⟨by decide, by decide, by decide, .inl (by decide)⟩, by decide, by decide⟩

end Console

end ProviderKit
