import Mathlib
import ProviderKit.Json.Writer
import ProviderKit.Json.Reader
import ProviderKit.Proofs.Number.Shortest
import ProviderKit.Proofs.Number.Spelling

/-!
# Numbers in JSON documents are read as they were written

A number that is written in front of the end of a value is read up to that end. An integer is read
as itself unless it has too many digits, and a canonical floating-point number as itself: what is
written is a decimal that rounds to it.
-/

namespace ProviderKit.Json

/-- A value ends here: the text is at its end, or goes on with a separator or the end of a line. -/
def AtEnd (rest : Text) : Prop :=
  ∀ c ∈ rest.head?, c = .char ',' ∨ c = .char ']' ∨ c = .char '}' ∨ c = .char '\n'

/-- The text does not start with a digit. -/
def NoDigit (t : Text) : Prop := ∀ c ∈ t.head?, isDigit c = false

/-- The end of a value is no digit. -/
theorem AtEnd.noDigit {rest : Text} (h : AtEnd rest) : NoDigit rest := by
  intro c hc
  rcases h c hc with rfl | rfl | rfl | rfl <;> rfl

/-! ## Digits -/

/-- The value of digits is the number that they spell. -/
theorem digitsValue_ofChars (cs : List Char) :
    Text.digitsValue (Text.ofChars cs) = Nat.ofDigitChars 10 cs 0 := by
  unfold Text.digitsValue Text.ofChars
  rw [List.foldl_map]
  rfl

/-- Digits are read up to the first code point that is none. -/
theorem spanDigits_append {ds : List Char} (hds : ∀ c ∈ ds, c.isDigit = true) {rest : Text}
    (hrest : NoDigit rest) : spanDigits (Text.ofChars ds ++ rest) = (Text.ofChars ds, rest) := by
  have hall : ∀ c ∈ Text.ofChars ds, isDigit c = true := by
    intro c hc
    obtain ⟨d, hd, rfl⟩ := List.mem_map.1 hc
    exact hds d hd
  have hnone : rest.takeWhile isDigit = [] ∧ rest.dropWhile isDigit = rest := by
    rcases rest with _ | ⟨c, rest⟩
    · exact ⟨rfl, rfl⟩
    · have hc := hrest c rfl
      rw [List.takeWhile_cons, List.dropWhile_cons, hc]
      exact ⟨rfl, rfl⟩
  unfold spanDigits
  rw [List.takeWhile_append_of_pos hall, List.dropWhile_append_of_pos hall, hnone.1, hnone.2,
    List.append_nil]

/-- The digits in front of a point or an end are read as a whole. -/
theorem readInteger_append {ds : List Char} (hds : ∀ c ∈ ds, c.isDigit = true)
    (hlead : ds = ['0'] ∨ ∃ c cs, ds = c :: cs ∧ c ≠ '0') {rest : Text} (hrest : NoDigit rest) :
    readInteger (Text.ofChars ds ++ rest) = (Text.ofChars ds, rest) := by
  rcases hlead with rfl | ⟨c, cs, rfl, hc⟩
  · rfl
  · have hspan := spanDigits_append hds hrest
    have hdefault : readInteger (Text.ofChars (c :: cs) ++ rest) =
        spanDigits (Text.ofChars (c :: cs) ++ rest) := by
      show readInteger (.char c :: (Text.ofChars cs ++ rest)) = _
      unfold readInteger
      split
      next heq =>
        cases heq
        exact absurd rfl hc
      · rfl
    rw [hdefault, hspan]

/-! ## Fractions and exponents -/

/-- Where a value ends there is no exponent. -/
theorem readExponent_atEnd {rest : Text} (h : AtEnd rest) : readExponent rest = (none, rest) := by
  rcases rest with _ | ⟨c, rest⟩
  · rfl
  · rcases h c rfl with rfl | rfl | rfl | rfl <;> rfl

/-- Where a value ends there is no fraction. -/
theorem readFraction_atEnd {rest : Text} (h : AtEnd rest) : readFraction rest = ([], rest) := by
  rcases rest with _ | ⟨c, rest⟩
  · rfl
  · rcases h c rfl with rfl | rfl | rfl | rfl <;> rfl

/-- An exponent is read as its value. -/
theorem readExponent_append {s : Spelling} (hs : s.WellFormed) {rest : Text} (h : AtEnd rest) :
    readExponent (Text.ofChars s.exponentText ++ rest) =
      (s.exponent.map fun _ => s.exponentValue, rest) := by
  unfold Spelling.exponentText Spelling.exponentValue
  rcases hexponent : s.exponent with _ | ⟨negative, digits⟩
  · exact readExponent_atEnd h
  · dsimp only
    obtain ⟨hne, hdigits⟩ := hs.exponent_digits negative digits hexponent
    have hspan := spanDigits_append hdigits h.noDigit
    have hsome : (Text.ofChars digits).isEmpty = false := by
      rcases digits with _ | ⟨d, digits⟩
      · exact absurd rfl hne
      · rfl
    have hread : readExponent (Text.ofChars ('e' :: (if negative then '-' else '+') :: digits) ++
        rest) =
        (some (if negative then -(Text.digitsValue (Text.ofChars digits) : Int)
          else Text.digitsValue (Text.ofChars digits)), rest) := by
      cases negative with
      | true =>
        show readExponent (.char 'e' :: .char '-' :: (Text.ofChars digits ++ rest)) = _
        simp [readExponent, hspan, hsome]
      | false =>
        show readExponent (.char 'e' :: .char '+' :: (Text.ofChars digits ++ rest)) = _
        simp [readExponent, hspan, hsome]
    rw [hread, digitsValue_ofChars]
    rfl

/-- Behind the digits of a fraction there is an exponent or an end, and no digit. -/
theorem exponentText_noDigit (s : Spelling) {rest : Text} (h : AtEnd rest) :
    NoDigit (Text.ofChars s.exponentText ++ rest) := by
  unfold Spelling.exponentText
  rcases s.exponent with _ | ⟨negative, digits⟩
  · exact h.noDigit
  · intro c hc
    cases hc
    rfl

/-- A fraction is read up to its end. -/
theorem readFraction_append {s : Spelling} (hs : s.WellFormed) {rest : Text} (h : AtEnd rest) :
    readFraction (Text.ofChars s.fractionText ++ (Text.ofChars s.exponentText ++ rest)) =
      (Text.ofChars s.fraction, Text.ofChars s.exponentText ++ rest) := by
  have hspan := spanDigits_append hs.fraction_digits (exponentText_noDigit s h)
  unfold Spelling.fractionText
  rcases hfraction : s.fraction with _ | ⟨d, ds⟩
  · rw [if_pos List.isEmpty_nil]
    unfold Spelling.exponentText
    rcases s.exponent with _ | ⟨negative, digits⟩
    · exact readFraction_atEnd h
    · rfl
  · rw [hfraction] at hspan
    rw [if_neg (by simp)]
    show readFraction (.char '.' :: (Text.ofChars (d :: ds) ++ _)) = _
    simp only [readFraction, hspan]
    rfl

/-- Behind the digits in front of the point there is no digit. -/
theorem fractionText_noDigit (s : Spelling) {rest : Text} (h : AtEnd rest) :
    NoDigit (Text.ofChars s.fractionText ++ (Text.ofChars s.exponentText ++ rest)) := by
  unfold Spelling.fractionText
  split
  · exact exponentText_noDigit s h
  · intro c hc
    cases hc
    rfl

/-! ## Numbers -/

/-- A spelled decimal that is no integer is read as the number nearest to it. -/
theorem readNumber_spelling {s : Spelling} (hs : s.WellFormed)
    (hshown : s.fraction ≠ [] ∨ s.exponent.isSome = true) {rest : Text} (h : AtEnd rest)
    (start : Text) (negative : Bool) :
    readNumber start negative (Text.ofChars s.text ++ rest) =
      .ok (.float (Binary64.ofDecimal negative s.mantissa s.power), rest) := by
  have hsplit : Text.ofChars s.text ++ rest = Text.ofChars s.whole ++
      (Text.ofChars s.fractionText ++ (Text.ofChars s.exponentText ++ rest)) := by
    unfold Spelling.text Text.ofChars
    simp only [List.map_append, List.append_assoc]
  have hwhole : (Text.ofChars s.whole).isEmpty = false := by
    rcases hs.leading with heq | ⟨c, cs, heq, -⟩
    · rw [heq]
      rfl
    · rw [heq]
      rfl
  have hnumber : ((Text.ofChars s.fraction).isEmpty &&
      (s.exponent.map fun _ => s.exponentValue).isNone) = false := by
    rcases hshown with hfraction | hexponent
    · rcases hd : s.fraction with _ | ⟨d, ds⟩
      · exact absurd hd hfraction
      · rfl
    · rcases hd : s.exponent with _ | e
      · rw [hd] at hexponent
        cases hexponent
      · exact Bool.and_false _
  have hmantissa : Text.digitsValue (Text.ofChars s.whole ++ Text.ofChars s.fraction) =
      s.mantissa := by
    unfold Spelling.mantissa
    rw [← digitsValue_ofChars]
    unfold Text.ofChars
    rw [List.map_append]
  have hpower : (s.exponent.map fun _ => s.exponentValue).getD 0 -
      ((Text.ofChars s.fraction).length : Int) = s.power := by
    unfold Spelling.power Spelling.exponentValue Text.ofChars
    rw [List.length_map]
    rcases s.exponent with _ | e <;> rfl
  unfold readNumber
  rw [hsplit, readInteger_append hs.whole_digits hs.leading (fractionText_noDigit s h)]
  dsimp only
  rw [hwhole, if_neg (by simp), readFraction_append hs h]
  dsimp only
  rw [readExponent_append hs h]
  dsimp only
  rw [hnumber, if_neg (by simp), hmantissa, hpower]

/-- The digits of a number that is not too long are read as the number. -/
theorem readNumber_digits {n : Nat} (hn : n < 10 ^ digitLimit) {rest : Text} (h : AtEnd rest)
    (start : Text) (negative : Bool) :
    readNumber start negative (Text.ofNat n ++ rest) =
      .ok (.int (if negative then -(n : Int) else n), rest) := by
  have hdigits : ∀ c ∈ Nat.toDigits 10 n, c.isDigit = true := fun c hc =>
    Nat.isDigit_of_mem_toDigits (by norm_num) (by norm_num) hc
  have hlead : Nat.toDigits 10 n = ['0'] ∨ ∃ c cs, Nat.toDigits 10 n = c :: cs ∧ c ≠ '0' := by
    rcases Nat.eq_zero_or_pos n with rfl | hpos
    · exact .inl (Nat.toDigits_zero 10)
    · exact .inr (Binary64.toDigits_head hpos)
  have hempty : (Text.ofChars (Nat.toDigits 10 n)).isEmpty = false := by
    rw [List.isEmpty_eq_false_iff]
    unfold Text.ofChars
    simp
  have hlength : ¬ digitLimit < (Text.ofChars (Nat.toDigits 10 n)).length := by
    unfold Text.ofChars
    rw [List.length_map, Nat.not_lt]
    exact (Nat.length_toDigits_le_iff (by norm_num) (by decide)).2 hn
  unfold readNumber Text.ofNat
  rw [readInteger_append hdigits hlead h.noDigit]
  dsimp only
  rw [hempty, if_neg (by simp), readFraction_atEnd h]
  dsimp only
  rw [readExponent_atEnd h]
  dsimp only
  rw [List.isEmpty_nil, Option.isNone_none, Bool.and_self, if_pos rfl, if_neg hlength,
    digitsValue_ofChars, Nat.ofDigitChars_ten_toDigits]

/-! ## Scalars -/

/-- What starts with no word is a number. -/
theorem readScalar_of_no_word (room : Nat) (t : Text) : readWord? t = none →
    readScalar room t =
      match t with
      | .char '-' :: rest => readNumber t true rest
      | _ => readNumber t false t := by
  intro h
  unfold readScalar
  split
  next heq => cases h.symm.trans heq
  next heq => cases h.symm.trans heq
  next => rfl

/-- A text that starts with a digit is a number. -/
theorem readScalar_digit {c : Char} (hc : c.isDigit = true) (room : Nat) (t : Text) :
    readScalar room (.char c :: t) = readNumber (.char c :: t) false (.char c :: t) := by
  have hne : ∀ d : Char, d.isDigit = false → (.char c : CodePoint) ≠ .char d := by
    rintro d hd heq
    cases heq
    rw [hc] at hd
    cases hd
  have hword : readWord? (.char c :: t) = none := by
    simp [readWord?, words, Text.ofString, Text.ofChars, Text.dropPrefix?, hne 'n' rfl,
      hne 't' rfl, hne 'f' rfl, hne 'N' rfl, hne 'I' rfl, hne '-' rfl]
  rw [readScalar_of_no_word _ _ hword]
  split
  next heq =>
    cases heq
    exact absurd hc (by decide)
  · rfl

/-- A text that starts with a minus sign and a digit is a negative number. -/
theorem readScalar_minus {c : Char} (hc : c.isDigit = true) (room : Nat) (t : Text) :
    readScalar room (.char '-' :: .char c :: t) =
      readNumber (.char '-' :: .char c :: t) true (.char c :: t) := by
  have hne : (.char c : CodePoint) ≠ .char 'I' := by
    rintro heq
    cases heq
    exact absurd hc (by decide)
  have hword : readWord? (.char '-' :: .char c :: t) = none := by
    simp [readWord?, words, Text.ofString, Text.ofChars, Text.dropPrefix?, hne]
  rw [readScalar_of_no_word _ _ hword]
  rfl

/-- A number without a sign, in a form that starts with a digit, is read as a scalar with the sign
in front of it. -/
theorem readScalar_signed {cs : List Char} (hcs : ∃ c rest, cs = c :: rest ∧ c.isDigit = true)
    {rest : Text} {value : Json} {negative : Bool}
    (h : ∀ start, readNumber start negative (Text.ofChars cs ++ rest) = .ok (value, rest))
    (room : Nat) :
    readScalar room ((if negative then [.char '-'] else []) ++ Text.ofChars cs ++ rest) =
      .ok (value, rest) := by
  obtain ⟨c, cs, rfl, hc⟩ := hcs
  cases negative with
  | true =>
    show readScalar room (.char '-' :: .char c :: (Text.ofChars cs ++ rest)) = _
    rw [readScalar_minus hc]
    exact h _
  | false =>
    show readScalar room (.char c :: (Text.ofChars cs ++ rest)) = _
    rw [readScalar_digit hc]
    exact h _

/-- An integer that is not too long is read as it was written. -/
theorem readScalar_ofInt {n : Int} (hn : n.natAbs < 10 ^ digitLimit) {rest : Text}
    (h : AtEnd rest) (room : Nat) :
    readScalar room (Text.ofInt n ++ rest) = .ok (.int n, rest) := by
  have hhead : ∀ k : Nat, ∃ c cs, Nat.toDigits 10 k = c :: cs ∧ c.isDigit = true := by
    intro k
    rcases hdigits : Nat.toDigits 10 k with _ | ⟨c, cs⟩
    · exact absurd hdigits Nat.toDigits_ne_nil
    · have hmem : c ∈ Nat.toDigits 10 k := by
        rw [hdigits]
        exact List.mem_cons_self
      exact ⟨c, cs, rfl, Nat.isDigit_of_mem_toDigits (by norm_num) (by norm_num) hmem⟩
  cases n with
  | ofNat k =>
    exact readScalar_signed (hhead k) (fun start => readNumber_digits hn h start false) room
  | negSucc k =>
    exact readScalar_signed (hhead (k + 1)) (fun start => readNumber_digits hn h start true) room

/-- The magnitude of a canonical number is a well-formed spelling that is no integer, and the
number is nearest to it. -/
theorem magnitudeText_spelling {m : Nat} {e : Int} (hcanonical : Binary64.IsCanonical m e) :
    ∃ s : Spelling, Binary64.magnitudeText m e = s.text ∧ s.WellFormed ∧
      (s.fraction ≠ [] ∨ s.exponent.isSome = true) ∧
      ∀ negative, Binary64.ofDecimal negative s.mantissa s.power = .finite negative m e := by
  unfold Binary64.magnitudeText
  split
  next hzero =>
    subst hzero
    have hbottom : e = -1074 := hcanonical.full.resolve_left (by norm_num)
    subst hbottom
    exact ⟨⟨['0'], ['0'], none⟩, rfl, ⟨by simp, by simp, by simp, .inl rfl⟩, .inl (by simp),
      fun _ => rfl⟩
  next hm =>
    have hpos : 0 < m := Nat.pos_of_ne_zero hm
    have hrounds := Binary64.shortest_roundsTo hcanonical hpos
    dsimp only
    generalize Binary64.shortest m e = found at *
    have hdigits : 0 < found.1 := by
      rcases Nat.eq_zero_or_pos found.1 with hzero | hpositive
      · have := hrounds.pos hpos
        rw [hzero] at this
        simp at this
      · exact hpositive
    obtain ⟨s, htext, hs, hshown, hvalue⟩ := Binary64.decimalText_spelling hdigits found.2
    rw [← hvalue] at hrounds
    exact ⟨s, htext, hs, hshown, Binary64.ofDecimal_of_roundsTo hcanonical hpos hrounds⟩

/-- A well-formed spelling starts with a digit. -/
theorem spelling_head {s : Spelling} (hs : s.WellFormed) :
    ∃ c cs, s.text = c :: cs ∧ c.isDigit = true := by
  rcases hs.leading with heq | ⟨c, cs, heq, -⟩
  · exact ⟨'0', s.fractionText ++ s.exponentText, by rw [Spelling.text, heq]; rfl, rfl⟩
  · refine ⟨c, cs ++ s.fractionText ++ s.exponentText, by rw [Spelling.text, heq]; rfl, ?_⟩
    exact hs.whole_digits c (heq ▸ List.mem_cons_self)

/-- How many levels reading a number needs: one if it is written as a word. -/
def wordLevels : Binary64 → Nat
  | .finite .. => 0
  | .infinity _ | .nan => 1

/-- The words are read as their values. Those for numbers need a level. -/
theorem readScalar_word (room : Nat) (rest : Text) :
    readScalar room ("null" ++ rest) = .ok (.null, rest) ∧
    readScalar room ("true" ++ rest) = .ok (.bool true, rest) ∧
    readScalar room ("false" ++ rest) = .ok (.bool false, rest) ∧
    (0 < room → readScalar room ("NaN" ++ rest) = .ok (.float .nan, rest) ∧
      readScalar room ("Infinity" ++ rest) = .ok (.float (.infinity false), rest) ∧
      readScalar room ("-Infinity" ++ rest) = .ok (.float (.infinity true), rest)) := by
  have hword : ∀ {t : Text} {value : Json}, readWord? t = some (value, rest) →
      (∀ x, value ≠ .float x) → readScalar room t = .ok (value, rest) := by
    intro t value hread hvalue
    unfold readScalar
    rw [hread]
    cases value with
    | float x => exact absurd rfl (hvalue x)
    | _ => rfl
  have hnumber : ∀ {t : Text} {x : Binary64}, readWord? t = some (.float x, rest) → 0 < room →
      readScalar room t = .ok (.float x, rest) := by
    intro t x hread hroom
    unfold readScalar
    rw [hread]
    exact if_neg (Nat.pos_iff_ne_zero.1 hroom)
  refine ⟨hword ?_ nofun, hword ?_ nofun, hword ?_ nofun, fun hroom =>
    ⟨hnumber ?_ hroom, hnumber ?_ hroom, hnumber ?_ hroom⟩⟩ <;>
    simp [readWord?, words, Text.ofString, Text.ofChars, Text.dropPrefix?]

/-- A canonical floating-point number is read as it was written, if there are levels for it. -/
theorem readScalar_float {x : Binary64} (hx : x.Canonical) {rest : Text} (h : AtEnd rest)
    {room : Nat} (hroom : wordLevels x ≤ room) :
    readScalar room (x.text "Infinity" "NaN" ++ rest) = .ok (.float x, rest) := by
  obtain ⟨-, -, -, hword⟩ := readScalar_word room rest
  cases x with
  | finite negative m e =>
    obtain ⟨s, htext, hs, hshown, hvalue⟩ := magnitudeText_spelling hx
    show readScalar room ((if negative then [.char '-'] else []) ++
      Text.ofChars (Binary64.magnitudeText m e) ++ rest) = _
    rw [htext]
    refine readScalar_signed (spelling_head hs) (fun start => ?_) room
    rw [readNumber_spelling hs hshown h start negative, hvalue negative]
  | infinity negative =>
    obtain ⟨-, hinfinity, hminus⟩ := hword hroom
    cases negative with
    | true => exact hminus
    | false => exact hinfinity
  | nan => exact (hword hroom).1

end ProviderKit.Json
