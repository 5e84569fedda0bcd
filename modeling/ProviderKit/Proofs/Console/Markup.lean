import Mathlib.Data.List.Basic
import Mathlib.Data.List.TakeWhile
import ProviderKit.Console.Markup

/-!
# Pieces of markup

A text is a sequence of tags, each behind some backslashes, and of single code points:
`pieces_tag` and `pieces_plain` say so of each of them, and `pieces_induction` of a whole text. What
markup shows is told by its pieces alone (`map_code_read`): a tag is shown if the number of
backslashes in front of it is odd, and a backslash in front of a bracket that is no tag's is not.
-/

namespace ProviderKit.Markup

variable {t body rest : Text} {c : CodePoint}

/-! ## Tags -/

/-- A text that may stand between the brackets of a tag. -/
def IsTagBody (body : Text) : Prop :=
  ∃ first more, body = first :: more ∧ startsTag first = true ∧
    ∀ c ∈ more, c ≠ .char '[' ∧ c ≠ .char ']'

/-- A tag starts neither with a bracket nor with a backslash. -/
theorem startsTag_ne (h : startsTag c = true) : c ≠ .char '[' ∧ c ≠ .char '\\' := by
  constructor <;> (rintro rfl; revert h; decide)

/-- The body of a tag ends at the first bracket, which closes it. -/
theorem tagBody_eq_some_iff : tagBody t = some (body, rest) ↔
    t = body ++ .char ']' :: rest ∧ ∀ c ∈ body, c ≠ .char '[' ∧ c ≠ .char ']' := by
  fun_induction tagBody t generalizing body with
  | case1 => simp
  | case2 after =>
    constructor
    · rintro ⟨⟩
      exact ⟨rfl, by simp⟩
    · rintro ⟨hbody, hclear⟩
      cases body with
      | nil => simp_all
      | cons c body => simp_all
  | case3 after =>
    constructor
    · rintro ⟨⟩
    · rintro ⟨hbody, hclear⟩
      cases body with
      | nil => simp_all
      | cons c body => simp_all
  | case4 c after hclose hopen ih =>
    rw [Option.map_eq_some_iff]
    constructor
    · rintro ⟨⟨more, tail⟩, hmore, h⟩
      obtain ⟨rfl, rfl⟩ := Prod.mk.inj h
      obtain ⟨rfl, hclear⟩ := ih.1 hmore
      exact ⟨rfl, List.forall_mem_cons.2 ⟨⟨hopen, hclose⟩, hclear⟩⟩
    · rintro ⟨hbody, hclear⟩
      cases body with
      | nil => exact absurd (List.cons.inj hbody).1 hclose
      | cons d more =>
        obtain ⟨rfl, rfl⟩ := List.cons.inj hbody
        exact ⟨(more, rest), ih.2 ⟨rfl, (List.forall_mem_cons.1 hclear).2⟩, rfl⟩

/-- A tag is its body in brackets. -/
theorem tagAt?_eq_some_iff :
    tagAt? t = some (body, rest) ↔ IsTagBody body ∧ t = bracketed body ++ rest := by
  unfold tagAt?
  split
  · rename_i first after
    split
    · rename_i hfirst
      rw [Option.map_eq_some_iff]
      constructor
      · rintro ⟨⟨more, tail⟩, hmore, h⟩
        obtain ⟨rfl, rfl⟩ := Prod.mk.inj h
        obtain ⟨rfl, hclear⟩ := tagBody_eq_some_iff.1 hmore
        exact ⟨⟨first, more, rfl, hfirst, hclear⟩, by simp [bracketed]⟩
      · rintro ⟨⟨d, more, rfl, -, hclear⟩, h⟩
        obtain ⟨rfl, rfl⟩ : first = d ∧ after = more ++ .char ']' :: rest := by
          simpa [bracketed] using h
        exact ⟨(more, rest), tagBody_eq_some_iff.2 ⟨rfl, hclear⟩, rfl⟩
    · rename_i hfirst
      refine iff_of_false (by simp) ?_
      rintro ⟨⟨d, more, rfl, hd, -⟩, h⟩
      obtain ⟨rfl, -⟩ : first = d ∧ after = more ++ .char ']' :: rest := by
        simpa [bracketed] using h
      exact hfirst hd
  · rename_i hshape
    refine iff_of_false (by simp) ?_
    rintro ⟨⟨first, more, rfl, -, -⟩, rfl⟩
    exact hshape first (more ++ .char ']' :: rest) (by simp [bracketed])

/-- Where a tag starts there is a bracket. -/
theorem tagAt?_cons_of_ne (h : c ≠ .char '[') (t : Text) : tagAt? (c :: t) = none := by
  unfold tagAt?
  split
  · rename_i heq
    exact absurd (List.cons.inj heq).1 h
  · rfl

/-! ## Backslashes -/

/-- Backslashes are all that is dropped from some backslashes. -/
theorem dropWhile_backslashes_append (n : Nat) (t : Text) :
    (backslashes n ++ t).dropWhile isBackslash = t.dropWhile isBackslash :=
  List.dropWhile_append_of_pos fun _ hc => by
    rw [List.eq_of_mem_replicate hc]
    rfl

/-- Backslashes in front of a bracket are taken up to the bracket. -/
theorem takeWhile_backslashes_append (n : Nat) (t : Text) :
    (backslashes n ++ t).takeWhile isBackslash = backslashes n ++ t.takeWhile isBackslash :=
  List.takeWhile_append_of_pos fun _ hc => by
    rw [List.eq_of_mem_replicate hc]
    rfl

/-- What a text starts with is backslashes, as many as are taken from it. -/
theorem takeWhile_isBackslash (t : Text) :
    t.takeWhile isBackslash = backslashes (t.takeWhile isBackslash).length := by
  refine List.eq_replicate_iff.2 ⟨rfl, fun c hc => ?_⟩
  simpa [isBackslash] using List.mem_takeWhile_imp hc

/-- Backslashes next to backslashes. -/
theorem backslashes_append (m n : Nat) : backslashes m ++ backslashes n = backslashes (m + n) :=
  List.replicate_append_replicate

/-- One backslash more. -/
theorem cons_backslashes (n : Nat) : .char '\\' :: backslashes n = backslashes (n + 1) := rfl

/-! ## Pieces -/

/-- What a piece was read from. -/
def Piece.text : Piece → Text
  | plain c => [c]
  | tag n body => backslashes n ++ bracketed body

/-- What follows a tag is shorter than what the tag is looked for in. -/
theorem length_lt_of_tagAt? (h : tagAt? ((c :: t).dropWhile isBackslash) = some (body, rest)) :
    rest.length < (c :: t).length := by
  have htag := congrArg List.length (tagAt?_eq_some_iff.1 h).2
  have hle := (List.dropWhile_sublist (l := c :: t) isBackslash).length_le
  simp only [bracketed, List.length_append, List.length_cons, List.length_nil] at *
  omega

/-- As much fuel as there are code points is enough. -/
theorem piecesWith_enough {fuel : Nat} (h : t.length ≤ fuel) : piecesWith fuel t = pieces t := by
  suffices ∀ fuel' t, t.length ≤ fuel → t.length ≤ fuel' →
      piecesWith fuel t = piecesWith fuel' t from this _ t h le_rfl
  clear h
  induction fuel with
  | zero =>
    intro fuel' t h _
    obtain rfl := List.eq_nil_of_length_eq_zero (Nat.le_zero.1 h)
    cases fuel' <;> rfl
  | succ fuel ih =>
    intro fuel' t h h'
    cases t with
    | nil => cases fuel' <;> rfl
    | cons c t =>
      cases fuel' with
      | zero => exact absurd h' (Nat.not_succ_le_zero _)
      | succ fuel' =>
        rw [List.length_cons] at h h'
        rw [piecesWith, piecesWith]
        split
        · rename_i body rest htag
          have hlt := length_lt_of_tagAt? htag
          rw [List.length_cons] at hlt
          rw [ih fuel' rest (by omega) (by omega)]
        · rw [ih fuel' t (by omega) (by omega)]

@[simp]
theorem pieces_nil : pieces [] = [] := rfl

/-- A tag is a piece, with the backslashes in front of it. -/
theorem pieces_tag (hbody : IsTagBody body) (n : Nat) (rest : Text) :
    pieces (backslashes n ++ bracketed body ++ rest) = .tag n body :: pieces rest := by
  have hdrop : (backslashes n ++ (bracketed body ++ rest)).dropWhile isBackslash =
      bracketed body ++ rest := dropWhile_backslashes_append n _
  have htake : (backslashes n ++ (bracketed body ++ rest)).takeWhile isBackslash =
      backslashes n := by
    rw [takeWhile_backslashes_append]
    exact List.append_nil _
  have htag : tagAt? (bracketed body ++ rest) = some (body, rest) :=
    tagAt?_eq_some_iff.2 ⟨hbody, rfl⟩
  rw [List.append_assoc]
  rcases h : backslashes n ++ (bracketed body ++ rest) with _ | ⟨c, t⟩
  · simp [bracketed] at h
  rw [h] at hdrop htake
  have hlt : rest.length < (c :: t).length := length_lt_of_tagAt? (hdrop ▸ htag)
  rw [pieces, List.length_cons, piecesWith, hdrop, htag, htake]
  simp only [piecesWith_enough (Nat.le_of_lt_succ hlt)]
  rw [backslashes, List.length_replicate]

/-- Any other code point is a piece of its own. -/
theorem pieces_plain (h : tagAt? ((c :: t).dropWhile isBackslash) = none) :
    pieces (c :: t) = .plain c :: pieces t := by
  rw [pieces, List.length_cons, piecesWith, h]
  rfl

/-- A text is empty, or starts with a tag, or with a code point that is none of a tag's. -/
theorem pieces_induction {motive : Text → Prop} (nil : motive [])
    (tag : ∀ n body rest, IsTagBody body → motive rest →
      motive (backslashes n ++ bracketed body ++ rest))
    (plain : ∀ c t, tagAt? ((c :: t).dropWhile isBackslash) = none → motive t → motive (c :: t))
    (t : Text) : motive t := by
  induction hlength : t.length using Nat.strong_induction_on generalizing t with
  | _ length ih =>
    cases t with
    | nil => exact nil
    | cons c t =>
      rcases h : tagAt? ((c :: t).dropWhile isBackslash) with _ | ⟨body, rest⟩
      · exact plain c t h (ih _ (by rw [← hlength, List.length_cons]; omega) t rfl)
      · obtain ⟨hbody, hdrop⟩ := tagAt?_eq_some_iff.1 h
        have hlt := hlength ▸ length_lt_of_tagAt? h
        have hsplit := List.takeWhile_append_dropWhile (p := isBackslash) (l := c :: t)
        rw [hdrop, takeWhile_isBackslash, ← List.append_assoc] at hsplit
        rw [← hsplit]
        exact tag _ body rest hbody (ih _ hlt rest rfl)

/-- The pieces of a text make up the text. -/
theorem flatMap_text_pieces (t : Text) : (pieces t).flatMap Piece.text = t := by
  induction t using pieces_induction with
  | nil => rfl
  | tag n body rest hbody ih => rw [pieces_tag hbody, List.flatMap_cons, ih, Piece.text]
  | plain c t h ih => rw [pieces_plain h, List.flatMap_cons, ih, Piece.text, List.singleton_append]

/-- A code point that is neither a bracket nor a backslash is a piece of its own. -/
theorem pieces_cons_of_ne (h : c ≠ .char '[' ∧ c ≠ .char '\\') (t : Text) :
    pieces (c :: t) = .plain c :: pieces t := by
  refine pieces_plain ?_
  rw [List.dropWhile_cons_of_neg (by simpa [isBackslash] using h.2)]
  exact tagAt?_cons_of_ne h.1 t

/-- Some backslashes are pieces of their own. -/
theorem pieces_backslashes (n : Nat) :
    pieces (backslashes n) = List.replicate n (.plain (.char '\\')) := by
  induction n with
  | zero => rfl
  | succ n ih =>
    have hdrop : (backslashes (n + 1)).dropWhile isBackslash = [] := by
      simpa using dropWhile_backslashes_append (n + 1) []
    rw [← cons_backslashes, pieces_plain (by rw [cons_backslashes, hdrop]; rfl), ih]
    rfl

/-! ## What markup shows -/

/-- The plain text of an item. -/
def Item.said : Item → Text
  | text t => t
  | openTag _ | closeTag _ => []

/-- What pieces show: a tag is shown if an odd number of backslashes stands in front of it, and of
each two of them one is; a backslash in front of a bracket that is no tag's is not shown. -/
def shown : List Piece → Text
  | .plain (.char '\\') :: .plain (.char '[') :: pieces => .char '[' :: shown pieces
  | .plain c :: pieces => c :: shown pieces
  | .tag n body :: pieces =>
    backslashes (n / 2) ++ (if n % 2 = 1 then bracketed body else []) ++ shown pieces
  | [] => []

/-- A code point is shown, unless it is a backslash in front of a bracket that is no tag's. -/
theorem shown_plain {pieces : List Piece}
    (h : c = .char '\\' → pieces.head? ≠ some (.plain (.char '['))) :
    shown (.plain c :: pieces) = c :: shown pieces := by
  rw [shown]
  intro more hpieces hc
  exact h hc (congrArg List.head? hpieces)

/-- What is shown of plain text is what is left of its backslashes. -/
theorem shown_map_plain (t : Text) (pieces : List Piece)
    (h : pieces.head? ≠ some (.plain (.char '['))) :
    shown (t.map .plain ++ pieces) = dropBackslash t ++ shown pieces := by
  fun_induction dropBackslash t with
  | case1 t ih => rw [List.map_cons, List.map_cons, List.cons_append, List.cons_append, shown, ih,
      List.cons_append]
  | case2 c t hnot ih =>
    rw [List.map_cons, List.cons_append, shown_plain, ih, List.cons_append]
    rintro rfl hhead
    cases t with
    | nil => exact h hhead
    | cons d t => exact hnot t rfl (by simpa using hhead)
  | case3 => rfl

/-- The items of some pieces say what the pieces show. -/
theorem flatMap_said_itemsFrom (before : Text) (pieces : List Piece) :
    (itemsFrom before pieces).flatMap Item.said =
      shown (before.reverse.map .plain ++ pieces) := by
  induction pieces generalizing before with
  | nil =>
    rw [itemsFrom, List.flatMap_singleton, Item.said, shown_map_plain _ [] nofun, shown,
      List.append_nil]
  | cons piece pieces ih =>
    cases piece with
    | plain c =>
      rw [itemsFrom, ih, List.reverse_cons, List.map_append, List.append_assoc]
      rfl
    | tag n body =>
      have hitem : (if n % 2 = 1 then Item.text (bracketed body) else itemOf body).said =
          if n % 2 = 1 then bracketed body else [] := by
        split
        · rfl
        · unfold itemOf
          split <;> rfl
      rw [itemsFrom, List.flatMap_cons, List.flatMap_cons, List.flatMap_cons, ih, hitem,
        shown_map_plain _ (.tag n body :: pieces) nofun, shown, List.append_assoc]
      rfl

/-- Without a bracket there are no tags. -/
theorem pieces_of_not_mem (h : .char '[' ∉ t) : pieces t = t.map .plain := by
  induction t with
  | nil => rfl
  | cons c t ih =>
    have hplain : tagAt? ((c :: t).dropWhile isBackslash) = none := by
      rcases htag : tagAt? ((c :: t).dropWhile isBackslash) with _ | ⟨body, rest⟩
      · rfl
      have hopen : .char '[' ∈ (c :: t).dropWhile isBackslash := by
        rw [(tagAt?_eq_some_iff.1 htag).2]
        exact List.mem_cons_self
      exact absurd ((List.dropWhile_sublist _).subset hopen) h
    rw [pieces_plain hplain, ih fun hmem => h (List.mem_cons_of_mem c hmem), List.map_cons]

/-- Nothing is dropped where there is no bracket. -/
theorem dropBackslash_of_not_mem (h : .char '[' ∉ t) : dropBackslash t = t := by
  fun_induction dropBackslash t with
  | case1 t ih => exact absurd (List.mem_cons_of_mem _ List.mem_cons_self) h
  | case2 c t hnot ih => rw [ih fun hmem => h (List.mem_cons_of_mem c hmem)]
  | case3 => rfl

/-- The items of markup say what its pieces show. -/
theorem flatMap_said_items (markup : Text) :
    (items markup).flatMap Item.said = shown (pieces markup) := by
  unfold items
  split
  · exact flatMap_said_itemsFrom [] (pieces markup)
  · rename_i hnone
    have hopen : .char '[' ∉ markup := by simpa using hnone
    have hshown := shown_map_plain markup [] nofun
    rw [List.append_nil, shown, List.append_nil, dropBackslash_of_not_mem hopen] at hshown
    rw [List.flatMap_singleton, Item.said, pieces_of_not_mem hopen, hshown]

/-- Styles aside, styled text is what its items say. -/
theorem map_code_textOf (styles : List (Option Style)) (items : List Item) :
    (textOf styles items).map Cell.code = items.flatMap Item.said := by
  induction items generalizing styles with
  | nil => rfl
  | cons item items ih =>
    cases item with
    | text t =>
      rw [textOf, List.map_append, ih, List.flatMap_cons, List.map_map]
      congr 1
      exact List.map_id t
    | openTag style => rw [textOf, ih, List.flatMap_cons, Item.said, List.nil_append]
    | closeTag style => rw [textOf, ih, List.flatMap_cons, Item.said, List.nil_append]

/-- Styles aside, markup is read as what its pieces show. -/
theorem map_code_read (markup : Text) : (read markup).map Cell.code = shown (pieces markup) := by
  rw [read, map_code_textOf, flatMap_said_items]

/-- What is shown of some pieces does not depend on the ones before them, which do not take part
in a bracket that is no tag's. -/
theorem shown_append {first second : List Piece}
    (h : second.head? ≠ some (.plain (.char '['))) :
    shown (first ++ second) = shown first ++ shown second := by
  fun_induction shown first with
  | case1 pieces ih => rw [List.cons_append, List.cons_append, shown, ih, List.cons_append]
  | case2 c pieces hnot ih =>
    rw [List.cons_append, shown_plain, ih, List.cons_append]
    rintro rfl hhead
    cases pieces with
    | nil => exact h hhead
    | cons piece pieces => exact hnot pieces (by rw [Option.some.inj hhead]) rfl
  | case3 n body pieces ih => rw [List.cons_append, shown, ih, List.append_assoc _ _ (shown second)]
  | case4 => rfl

/-- Backslashes are shown as they are at the end. -/
theorem shown_replicate (n : Nat) : shown (List.replicate n (.plain (.char '\\'))) =
    backslashes n := by
  induction n with
  | zero => rfl
  | succ n ih =>
    rw [List.replicate_succ, shown_plain, ih, cons_backslashes]
    intro _ hhead
    cases n <;> cases hhead

/-- What is shown was in the pieces. -/
theorem mem_of_mem_shown {pieces : List Piece} {c : CodePoint} (h : c ∈ shown pieces) :
    c ∈ pieces.flatMap Piece.text := by
  fun_induction shown pieces with
  | case1 pieces ih =>
    rw [List.flatMap_cons, List.flatMap_cons, ← List.append_assoc, List.mem_append]
    rcases List.mem_cons.1 h with rfl | h
    · exact .inl (List.mem_append_right _ List.mem_cons_self)
    · exact .inr (ih h)
  | case2 d pieces _ ih =>
    rw [List.flatMap_cons, List.mem_append]
    rcases List.mem_cons.1 h with rfl | h
    · exact .inl List.mem_cons_self
    · exact .inr (ih h)
  | case3 n body pieces ih =>
    rw [List.flatMap_cons, List.mem_append, Piece.text, List.mem_append]
    rcases List.mem_append.1 h with h | h
    · rcases List.mem_append.1 h with h | h
      · obtain ⟨hn, rfl⟩ := List.mem_replicate.1 h
        exact .inl (.inl (List.mem_replicate.2 ⟨by omega, rfl⟩))
      · split at h
        · exact .inl (.inr h)
        · cases h
    · exact .inr (ih h)
  | case4 => cases h

/-- A tag with no backslash in front is not shown. -/
theorem shown_bracketed_append {body : Text} (hbody : IsTagBody body) (t : Text) :
    shown (pieces (bracketed body ++ t)) = shown (pieces t) := by
  have htag : pieces (bracketed body ++ t) = .tag 0 body :: pieces t := pieces_tag hbody 0 t
  rw [htag, shown]
  rfl

/-- Text without brackets and backslashes is shown as it is. -/
theorem shown_append_of_clear {s : Text} (h : ∀ c ∈ s, c ≠ .char '[' ∧ c ≠ .char '\\')
    (t : Text) : shown (pieces (s ++ t)) = s ++ shown (pieces t) := by
  induction s with
  | nil => rfl
  | cons c s ih =>
    obtain ⟨hc, hs⟩ := List.forall_mem_cons.1 h
    rw [List.cons_append, pieces_cons_of_ne hc, shown_plain fun hback => absurd hback hc.2, ih hs,
      List.cons_append]

/-- A style has a tag. -/
theorem isTagBody_tag (style : Style) : IsTagBody style.tag := by
  cases style <;> exact ⟨_, _, rfl, by decide, by decide⟩

/-- A style has a closing tag. -/
theorem isTagBody_close (style : Style) : IsTagBody (.char '/' :: style.tag) := by
  cases style <;> exact ⟨_, _, rfl, by decide, by decide⟩

/-- A styled name in front of a text is shown as it is. -/
theorem shown_named_append (style : Style) {name : Text}
    (h : ∀ c ∈ name, c ≠ .char '[' ∧ c ≠ .char '\\') (t : Text) :
    shown (pieces (wrapped style name ++ " " ++ t)) = name ++ " " ++ shown (pieces t) := by
  rw [wrapped, List.append_assoc, List.append_assoc, List.append_assoc,
    shown_bracketed_append (isTagBody_tag _), shown_append_of_clear h,
    shown_bracketed_append (isTagBody_close _), shown_append_of_clear (by decide),
    ← List.append_assoc]

end ProviderKit.Markup
