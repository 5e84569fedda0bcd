import Mathlib.Algebra.GroupWithZero.Nat
import Mathlib.Data.List.DropRight
import Mathlib.Data.List.TakeWhile
import ProviderKit.Console.Basic

/-!
# Lines that fit

A line that takes no more columns than the console has is not broken: its words together take no
more columns than the line (`sum_columns_words`), so each of them is added to the line that is being
filled (`foldl_add_of_fits`), and nothing is cut from it (`crop_of_fits`), unless it has more code
points than the console has columns and white space at its end. `Console.render_of_fits` says what
is written of such a line.
-/

namespace ProviderKit

/-! ## Columns -/

namespace Text

variable {t : Text}

/-- What stands before a text can only make it wider. -/
theorem columnsFrom_none_le (joined : Bool) (last : Option CodePoint) (t : Text) :
    columnsFrom joined none t ≤ columnsFrom joined last t := by
  induction t generalizing joined last with
  | nil => exact le_rfl
  | cons c t ih =>
    rw [columnsFrom, columnsFrom]
    split_ifs with hjoined hjoiner hselector hnone hzero hsome hzero
    all_goals first
      | exact ih _ _
      | simp_all

/-- A text takes no more columns than one that goes on. -/
theorem columnsFrom_le_append (joined : Bool) (last : Option CodePoint) (s t : Text) :
    columnsFrom joined last s ≤ columnsFrom joined last (s ++ t) := by
  induction s generalizing joined last with
  | nil => exact Nat.zero_le _
  | cons c s ih =>
    rw [List.cons_append, columnsFrom, columnsFrom]
    split_ifs
    all_goals first
      | exact ih _ _
      | exact Nat.add_le_add_left (ih _ _) _

/-- A text that does not end in a joiner and the text behind it take no more columns apart than
together. -/
theorem columnsFrom_add_le (joined : Bool) (last : Option CodePoint) (s t : Text)
    (hstart : s = [] → joined = false) (hend : ∀ c, s.getLast? = some c → c.isJoiner = false) :
    columnsFrom joined last s + columns t ≤ columnsFrom joined last (s ++ t) := by
  induction s generalizing joined last with
  | nil =>
    rw [hstart rfl, columnsFrom, Nat.zero_add, List.nil_append]
    exact columnsFrom_none_le false last t
  | cons c s ih =>
    have hrest : ∀ d, s.getLast? = some d → d.isJoiner = false := fun d hd =>
      hend d (by rw [List.getLast?_cons, hd]; rfl)
    have hmore : s = [] → c.isJoiner = false := fun hs => hend c (by rw [hs]; rfl)
    have hplain (last : Option CodePoint) := ih false last (fun _ => rfl) hrest
    rw [List.cons_append, columnsFrom, columnsFrom]
    split_ifs with hjoined hjoiner
    · exact hplain last
    · exact ih true last (fun hs => absurd hjoiner (by rw [hmore hs]; decide)) hrest
    all_goals first
      | exact hplain _
      | exact (Nat.add_assoc _ _ _).le.trans (Nat.add_le_add_left (hplain _) _)

end Text

namespace Wrap

variable {width : Nat} {line : StyledText}

/-- A line takes no more columns than one that goes on. -/
theorem columns_le_append (s t : StyledText) : columns s ≤ columns (s ++ t) := by
  rw [columns, columns, List.map_append]
  exact Text.columnsFrom_le_append false none _ _

/-- A line that ends in white space and the line behind it take no more columns apart than
together. -/
theorem columns_add_le {s t : StyledText} (h : ∀ c, s.getLast? = some c → isBlank c = true) :
    columns s + columns t ≤ columns (s ++ t) := by
  rw [columns, columns, columns, List.map_append]
  refine Text.columnsFrom_add_le false none _ _ (fun _ => rfl) fun c hc => ?_
  rw [List.getLast?_map, Option.map_eq_some_iff] at hc
  obtain ⟨cell, hcell, rfl⟩ := hc
  have hblank := h cell hcell
  by_contra hjoiner
  rw [Bool.not_eq_false, CodePoint.isJoiner, decide_eq_true_eq] at hjoiner
  rw [isBlank, hjoiner] at hblank
  exact absurd hblank (by decide)

/-! ## Words -/

/-- A word, the white space on both its sides and what follows make up a line. -/
theorem word_append (line : StyledText) :
    let rest := line.dropWhile isBlank
    let after := rest.dropWhile (!isBlank ·)
    line.takeWhile isBlank ++ rest.takeWhile (!isBlank ·) ++ after.takeWhile isBlank ++
      after.dropWhile isBlank = line := by
  intro rest after
  rw [List.append_assoc, List.takeWhile_append_dropWhile, List.append_assoc,
    List.takeWhile_append_dropWhile, List.takeWhile_append_dropWhile]

/-- The words of a line take no more columns than the line. -/
theorem sum_columns_wordsWith (fuel : Nat) (line : StyledText) :
    ((wordsWith fuel line).map columns).sum ≤ columns line := by
  induction fuel generalizing line with
  | zero => exact Nat.zero_le _
  | succ fuel ih =>
    have hline := word_append line
    rw [wordsWith]
    set rest := line.dropWhile isBlank
    set after := rest.dropWhile (!isBlank ·) with hafter
    set word := line.takeWhile isBlank ++ rest.takeWhile (!isBlank ·) ++ after.takeWhile isBlank
      with hword
    dsimp only at hline ⊢
    split
    · exact Nat.zero_le _
    · rw [List.map_cons, List.sum_cons]
      refine (Nat.add_le_add_left (ih _) _).trans ?_
      rcases hmore : after.dropWhile isBlank with _ | ⟨c, more⟩
      · rw [hmore, List.append_nil] at hline
        exact (Nat.add_zero _).le.trans (congrArg columns hline).le
      -- More words follow, so this one ends in white space.
      rw [← hmore]
      refine (columns_add_le fun c hc => ?_).trans (congrArg columns hline).le
      have hblanks : after.takeWhile isBlank ≠ [] := by
        intro hnone
        rcases hcells : after with _ | ⟨d, cells⟩
        · rw [hcells] at hmore
          cases hmore
        · have hd : isBlank d = true := by
            have hhead := List.head?_dropWhile_not (!isBlank ·) rest
            rw [← hafter, hcells] at hhead
            simpa using hhead
          rw [hcells, List.takeWhile_cons_of_pos hd] at hnone
          cases hnone
      rw [hword, List.getLast?_append_of_ne_nil _ hblanks] at hc
      exact List.mem_takeWhile_imp (List.mem_of_getLast? hc)

/-- With enough fuel, the words of a line make up the line, unless it is white space only. -/
theorem flatten_wordsWith {fuel : Nat} (hfuel : line.length ≤ fuel)
    (hsome : line = [] ∨ ∃ c ∈ line, isBlank c = false) :
    (wordsWith fuel line).flatten = line := by
  induction fuel generalizing line with
  | zero => exact (List.eq_nil_of_length_eq_zero (Nat.le_zero.1 hfuel)).symm
  | succ fuel ih =>
    have hline := word_append line
    rw [wordsWith]
    set rest := line.dropWhile isBlank with hrest
    set after := rest.dropWhile (!isBlank ·)
    dsimp only at hline ⊢
    split
    · rename_i hnone
      rcases hsome with rfl | ⟨c, hc, hblank⟩
      · rfl
      -- White space is all that the line is then.
      have hempty : rest = [] := by
        rcases hcells : rest with _ | ⟨d, cells⟩
        · rfl
        have hd := List.head?_dropWhile_not isBlank line
        rw [← hrest, hcells] at hd
        rw [hcells, List.takeWhile_cons_of_pos (by simpa using hd)] at hnone
        cases hnone
      have hall := List.dropWhile_eq_nil_iff.1 (hrest.symm.trans hempty)
      exact absurd (hall c hc) (by rw [hblank]; decide)
    · rename_i hword
      rw [List.flatten_cons, ih]
      · exact hline
      · have hlength : (line.takeWhile isBlank).length + (rest.takeWhile (!isBlank ·)).length +
            (after.takeWhile isBlank).length + (after.dropWhile isBlank).length = line.length := by
          simpa only [List.length_append] using congrArg List.length hline
        have hpos := List.length_pos_iff.2 (mt List.isEmpty_iff.2 hword)
        omega
      · rcases hcells : after.dropWhile isBlank with _ | ⟨c, cells⟩
        · exact .inl rfl
        · have hc := List.head?_dropWhile_not isBlank after
          rw [hcells] at hc
          exact .inr ⟨c, List.mem_cons_self, by simpa using hc⟩

/-- The words of a line, or the line if it has none, make up the line. -/
theorem flatten_wordsOrBlank (line : StyledText) : (wordsOrBlank line).flatten = line := by
  rw [wordsOrBlank]
  split
  · exact List.flatten_singleton
  · rename_i hsome
    refine flatten_wordsWith le_rfl ?_
    by_contra hblank
    push Not at hblank
    obtain ⟨hne, hall⟩ := hblank
    have hdrop : line.dropWhile isBlank = [] :=
      List.dropWhile_eq_nil_iff.2 fun c hc => by simpa using hall c hc
    obtain ⟨n, hn⟩ := Nat.exists_eq_succ_of_ne_zero (mt List.eq_nil_of_length_eq_zero hne)
    rw [words, hn, wordsWith, hdrop] at hsome
    exact hsome rfl

/-- The words of a line, or the line if it has none, take no more columns than the line. -/
theorem sum_columns_wordsOrBlank (line : StyledText) :
    ((wordsOrBlank line).map columns).sum ≤ columns line := by
  rw [wordsOrBlank]
  split
  · exact (List.sum_singleton).le
  · exact sum_columns_wordsWith _ _

/-! ## Layout -/

/-- Words that fit together are added to the line that is being filled. -/
theorem foldl_add_of_fits {words : List StyledText} (l : Layout)
    (h : l.used + (words.map columns).sum ≤ width) :
    words.foldl (Layout.add width) l =
      { l with line := l.line ++ words.flatten, used := l.used + (words.map columns).sum } := by
  induction words generalizing l with
  | nil => simp
  | cons word words ih =>
    rw [List.map_cons, List.sum_cons] at h
    have hneeded : columns (trimEnd word) ≤ columns word := by
      obtain ⟨blanks, hword⟩ : trimEnd word <+: word := List.rdropWhile_prefix isBlank word
      calc columns (trimEnd word) ≤ columns (trimEnd word ++ blanks) := columns_le_append _ _
        _ = columns word := by rw [hword]
    have hadd : l.add width word = l.addHere word := if_pos (by omega)
    rw [List.foldl_cons, hadd, ih (l.addHere word) (by dsimp only [Layout.addHere]; omega)]
    simp [Layout.addHere, Nat.add_assoc]

/-- The line fits a width: it takes no more columns, and no white space at its end is counted
against it. -/
structure Fits (width : Nat) (line : StyledText) : Prop where
  /-- There are columns enough. -/
  columns_le : columns line ≤ width
  /-- With code points that take no column, white space may be cut although there is room for it. -/
  solid : line.length ≤ width ∨ ∀ c, line.getLast? = some c → isBlank c = false

/-- Nothing is cut from a line that fits. -/
theorem crop_of_fits (h : Fits width line) : crop width line = line := by
  have hnone : min (line.reverse.takeWhile isBlank).length (line.length - width) = 0 := by
    rcases h.solid with hlength | hlast
    · rw [Nat.sub_eq_zero_of_le hlength, Nat.min_zero]
    · rcases hreverse : line.reverse with _ | ⟨c, cells⟩
      · exact Nat.zero_min _
      · have hc : isBlank c = false := hlast c (by rw [← List.head?_reverse, hreverse]; rfl)
        rw [List.takeWhile_cons_of_neg (by rw [hc]; decide)]
        exact Nat.zero_min _
  rw [crop, hnone, Nat.sub_zero, List.take_length, truncate, if_pos h.columns_le]

/-- A line that fits is not broken. -/
theorem wrapLine_of_fits (h : Fits width (expandTabs line)) :
    wrapLine width line = [expandTabs line] := by
  have hsum := (sum_columns_wordsOrBlank (expandTabs line)).trans h.columns_le
  rw [wrapLine, foldl_add_of_fits {} (by simpa using hsum), flatten_wordsOrBlank]
  exact congrArg (fun l => [l]) (crop_of_fits h)

/-- Without an end of line the text is one line. -/
theorem splitLines_of_not_mem {t : StyledText} (h : ∀ c ∈ t, c.code ≠ .char '\n') :
    splitLines t = [t] := by
  induction t with
  | nil => rfl
  | cons c t ih =>
    rw [splitLines, if_neg (h c List.mem_cons_self), ih fun d hd => h d (List.mem_cons_of_mem c hd)]

/-! ## Tabs -/

/-- What fills up a tab is spaces. -/
theorem map_code_tabStop (style : Option Style) (n : Nat) :
    (tabStop style n).map Cell.code = List.replicate n (.char ' ') := by
  cases n with
  | zero => rfl
  | succ n => rw [tabStop, List.map_append, List.map_replicate, List.replicate_succ']; rfl

/-- Text without tabs has nothing filled up. -/
theorem expandTabs_of_not_mem {t : StyledText} (h : ∀ c ∈ t, c.code ≠ .char '\t') :
    expandTabs t = t := by
  suffices ∀ column part, expandTabsFrom column part t = part.reverse ++ t from this 0 []
  intro column part
  induction t generalizing part with
  | nil => exact (List.append_nil _).symm
  | cons c t ih =>
    rw [expandTabsFrom, if_neg (h c List.mem_cons_self),
      ih fun d hd => h d (List.mem_cons_of_mem c hd), List.reverse_cons, List.append_assoc]
    rfl

/-- What is left when tabs are filled up is what was no tab, and spaces. -/
theorem mem_code_expandTabs {t : StyledText} {d : CodePoint} (hspace : d ≠ .char ' ') :
    d ∈ (expandTabs t).map Cell.code ↔ d ∈ t.map Cell.code ∧ d ≠ .char '\t' := by
  suffices ∀ column part, (∀ c ∈ part, c.code ≠ .char '\t') →
      (d ∈ (expandTabsFrom column part t).map Cell.code ↔
        d ∈ part.map Cell.code ∨ d ∈ t.map Cell.code ∧ d ≠ .char '\t') by
    simpa [expandTabs] using this 0 [] nofun
  intro column part hpart
  induction t generalizing column part with
  | nil => simp [expandTabsFrom]
  | cons c t ih =>
    rw [expandTabsFrom]
    split
    · rename_i htab
      have hstop : ∀ n, d ∉ (tabStop c.style n).map Cell.code := fun n hd =>
        hspace (List.eq_of_mem_replicate (map_code_tabStop c.style n ▸ hd))
      rw [List.map_append, List.map_append, List.mem_append, List.mem_append, ih _ [] nofun,
        List.map_cons, List.mem_cons, htab]
      simp only [List.map_reverse, List.mem_reverse, hstop, or_false, List.map_nil,
        List.not_mem_nil, false_or]
      constructor
      · rintro (hd | ⟨hd, hne⟩)
        · exact .inl hd
        · exact .inr ⟨.inr hd, hne⟩
      · rintro (hd | ⟨rfl | hd, hne⟩)
        · exact .inl hd
        · exact absurd rfl hne
        · exact .inr ⟨hd, hne⟩
    · rename_i hkeep
      rw [ih _ _ (List.forall_mem_cons.2 ⟨hkeep, hpart⟩), List.map_cons, List.map_cons,
        List.mem_cons, List.mem_cons]
      constructor
      · rintro ((rfl | hd) | ⟨hd, hne⟩)
        · exact .inr ⟨.inl rfl, hkeep⟩
        · exact .inl hd
        · exact .inr ⟨.inr hd, hne⟩
      · rintro (hd | ⟨rfl | hd, hne⟩)
        · exact .inl (.inr hd)
        · exact .inl (.inl rfl)
        · exact .inr ⟨hd, hne⟩

end Wrap

namespace Console

/-! ## What is written -/

/-- Without colour, the runs of a line are written as the line. -/
theorem paintLine_false (line : StyledText) : paintLine false line = line.map Cell.code := by
  have hpaint : paint false = Prod.snd := funext fun run => by
    obtain ⟨style, run⟩ := run
    cases style <;> rfl
  rw [paintLine, hpaint]
  induction line with
  | nil => rfl
  | cons c line ih =>
    rw [List.map_cons, ← ih, runs]
    split
    · rename_i hnone
      rw [hnone]
      rfl
    · rename_i style run rest hruns
      rw [hruns]
      split <;> rfl

/-- The text as it stands on a console that is wide enough for it: without the characters that move
the cursor, and with tabs filled up. -/
def drawn (t : StyledText) : StyledText :=
  Wrap.expandTabs (t.filter fun c => !isControl c.code)

/-- A text of one line that fits the width is written as it is drawn. -/
theorem render_of_fits {c : Console} {t : StyledText} (hcoloured : c.coloured = false)
    (hwidth : 0 < c.width) (hline : ∀ d ∈ drawn t, d.code ≠ .char '\n')
    (hfits : Wrap.Fits c.width (drawn t)) :
    c.render t = (drawn t).map Cell.code ++ "\n" := by
  have hone : ∀ d ∈ t.filter fun c => !isControl c.code, d.code ≠ .char '\n' := by
    intro d hd hbreak
    have hmem := (Wrap.mem_code_expandTabs (d := d.code) (by rw [hbreak]; decide)).2
      ⟨List.mem_map_of_mem hd, by rw [hbreak]; decide⟩
    obtain ⟨e, he, hcode⟩ := List.mem_map.1 hmem
    exact hline e he (hcode.trans hbreak)
  rw [render, if_neg hwidth.ne', Wrap.wrap, Wrap.splitLines_of_not_mem hone, List.flatMap_singleton,
    Wrap.wrapLine_of_fits hfits, hcoloured, List.map_singleton, paintLine_false]
  rfl

end Console

end ProviderKit
