import Mathlib
import ProviderKit.Number.Shortest

/-!
# How decimals are spelled

`decimalText` writes a decimal in three ways. Each of them is a spelling: digits before a point,
digits behind it, and an exponent. A reader that takes the parts of a spelling one after the other
gets the same rational back, whichever way was taken (`decimalText_spelling`).
-/

namespace ProviderKit

/-- How a decimal is spelled: the digits before the point, those behind it, and the sign and the
digits of the exponent, if it has one. -/
structure Spelling where
  whole : List Char
  fraction : List Char := []
  exponent : Option (Bool × List Char) := none

namespace Spelling

/-- The part behind the point, with the point. -/
def fractionText (s : Spelling) : List Char := if s.fraction.isEmpty then [] else '.' :: s.fraction

/-- The exponent, with its letter and its sign. -/
def exponentText (s : Spelling) : List Char :=
  match s.exponent with
  | none => []
  | some (negative, digits) => 'e' :: (if negative then '-' else '+') :: digits

/-- A spelled decimal as it is written. -/
def text (s : Spelling) : List Char := s.whole ++ s.fractionText ++ s.exponentText

/-- All digits in front of the exponent, as one number. -/
def mantissa (s : Spelling) : Nat := Nat.ofDigitChars 10 (s.whole ++ s.fraction) 0

/-- The exponent as a number. -/
def exponentValue (s : Spelling) : Int :=
  match s.exponent with
  | none => 0
  | some (negative, digits) =>
    if negative then -(Nat.ofDigitChars 10 digits 0 : Int) else Nat.ofDigitChars 10 digits 0

/-- The power of ten of the last digit. -/
def power (s : Spelling) : Int := s.exponentValue - s.fraction.length

/-- The parts of a spelling are digits, and the first of them is a zero only if it is alone. -/
structure WellFormed (s : Spelling) : Prop where
  whole_digits : ∀ c ∈ s.whole, c.isDigit = true
  fraction_digits : ∀ c ∈ s.fraction, c.isDigit = true
  exponent_digits : ∀ negative digits, s.exponent = some (negative, digits) →
    digits ≠ [] ∧ ∀ c ∈ digits, c.isDigit = true
  leading : s.whole = ['0'] ∨ ∃ c rest, s.whole = c :: rest ∧ c ≠ '0'

end Spelling

namespace Binary64

/-! ## Digits -/

/-- The digits of a positive number start with one that is not zero. -/
theorem toDigits_head {n : Nat} (h : 0 < n) :
    ∃ c rest, Nat.toDigits 10 n = c :: rest ∧ c ≠ '0' := by
  induction n using Nat.strongRecOn with
  | ind n ih =>
    rw [Nat.toDigits_eq_if (by norm_num)]
    split
    next hsmall =>
      refine ⟨_, _, rfl, ?_⟩
      have hcases : ∀ d : Nat, 0 < d → d < 10 → d.digitChar ≠ '0' := by
        intro d hd hd'
        interval_cases d <;> decide
      exact hcases n h hsmall
    next hlarge =>
      obtain ⟨c, rest, hdigits, hc⟩ := ih (n / 10) (by omega) (by omega)
      exact ⟨c, rest ++ [(n % 10).digitChar], by rw [hdigits]; rfl, hc⟩

/-- The final zeros of a text of digits are what is dropped from it. -/
theorem dropZeros_append (ds : List Char) :
    ds = dropZeros ds ++ List.replicate (ds.length - (dropZeros ds).length) '0' := by
  have hsplit : ds.reverse.takeWhile (· == '0') ++ ds.reverse.dropWhile (· == '0') = ds.reverse :=
    List.takeWhile_append_dropWhile
  have hzeros : ds.reverse.takeWhile (· == '0') =
      List.replicate (ds.reverse.takeWhile (· == '0')).length '0' := by
    refine List.eq_replicate_iff.2 ⟨rfl, fun c hc => ?_⟩
    simpa using List.mem_takeWhile_imp hc
  have hds : ds = dropZeros ds ++
      List.replicate (ds.reverse.takeWhile (· == '0')).length '0' := by
    have hreverse := congrArg List.reverse hsplit
    rw [List.reverse_append, List.reverse_reverse, hzeros, List.reverse_replicate] at hreverse
    unfold dropZeros
    simpa using hreverse.symm
  have hlength := congrArg List.length hds
  rw [List.length_append, List.length_replicate] at hlength
  rw [show ds.length - (dropZeros ds).length = (ds.reverse.takeWhile (· == '0')).length by omega]
  exact hds

/-- What is left of the digits of a positive number without the final zeros. -/
structure Significand (number : Nat) (ds : List Char) (zeros : Nat) : Prop where
  digits : ∀ c ∈ ds, c.isDigit = true
  leading : ∃ c rest, ds = c :: rest ∧ c ≠ '0'
  length : (Nat.toDigits 10 number).length = ds.length + zeros
  value : number = 10 ^ zeros * Nat.ofDigitChars 10 ds 0

/-- The digits of a positive number without the final zeros still give the number. -/
theorem significand_dropZeros {number : Nat} (h : 0 < number) :
    ∃ zeros, Significand number (dropZeros (Nat.toDigits 10 number)) zeros := by
  obtain ⟨c, rest, hall, hc⟩ := toDigits_head h
  have hsplit := dropZeros_append (Nat.toDigits 10 number)
  have hvalue := Nat.ofDigitChars_ten_toDigits (n := number)
  have hdigits : ∀ c ∈ Nat.toDigits 10 number, c.isDigit = true := fun c hc =>
    Nat.isDigit_of_mem_toDigits (by norm_num) (by norm_num) hc
  generalize hk : (Nat.toDigits 10 number).length -
    (dropZeros (Nat.toDigits 10 number)).length = zeros at hsplit
  generalize dropZeros (Nat.toDigits 10 number) = ds at *
  refine ⟨zeros, fun c hc => hdigits c ?_, ?_, ?_, ?_⟩
  · rw [hsplit]
    exact List.mem_append_left _ hc
  · rw [hall] at hsplit
    rcases ds with _ | ⟨d, ds⟩
    · -- Nothing is left only of zeros, but the first digit is none.
      have hmem : c ∈ List.replicate zeros '0' := by
        rw [List.nil_append] at hsplit
        rw [← hsplit]
        exact List.mem_cons_self
      exact absurd (List.eq_of_mem_replicate hmem) hc
    · rw [List.cons_append, List.cons.injEq] at hsplit
      exact ⟨d, ds, rfl, hsplit.1 ▸ hc⟩
  · rw [hsplit, List.length_append, List.length_replicate]
  · rw [hsplit, Nat.ofDigitChars_append, Nat.ofDigitChars_replicate_zero] at hvalue
    exact hvalue.symm

/-! ## The three ways to write a decimal -/

/-- The digits of an exponent, at least two. -/
def exponentDigits (lead : Int) : List Char :=
  if (Nat.toDigits 10 lead.natAbs).length < 2 then '0' :: Nat.toDigits 10 lead.natAbs
  else Nat.toDigits 10 lead.natAbs

/-- The digits of an exponent are digits, and give its magnitude. -/
theorem exponentDigits_spec (lead : Int) :
    exponentDigits lead ≠ [] ∧ (∀ c ∈ exponentDigits lead, c.isDigit = true) ∧
      Nat.ofDigitChars 10 (exponentDigits lead) 0 = lead.natAbs := by
  have hdigits : ∀ c ∈ Nat.toDigits 10 lead.natAbs, c.isDigit = true := fun c hc =>
    Nat.isDigit_of_mem_toDigits (by norm_num) (by norm_num) hc
  unfold exponentDigits
  split
  · refine ⟨List.cons_ne_nil _ _, fun c hc => ?_, ?_⟩
    · rcases List.mem_cons.1 hc with rfl | hc
      · rfl
      · exact hdigits c hc
    · rw [Nat.ofDigitChars_cons]
      exact Nat.ofDigitChars_ten_toDigits
  · exact ⟨Nat.toDigits_ne_nil, hdigits, Nat.ofDigitChars_ten_toDigits⟩

/-- The spelling that is chosen for a decimal with given digits, of which the first one has a given
power of ten. -/
def spelling (ds : List Char) (lead : Int) : Spelling :=
  if -4 ≤ lead ∧ lead < 16 then
    if lead < 0 then { whole := ['0'], fraction := List.replicate (-lead - 1).toNat '0' ++ ds }
    else
      { whole := ds.take (lead.toNat + 1) ++
          List.replicate (lead.toNat + 1 - (ds.take (lead.toNat + 1)).length) '0'
        fraction := if (ds.drop (lead.toNat + 1)).isEmpty then ['0'] else ds.drop (lead.toNat + 1) }
  else
    { whole := ds.take 1, fraction := ds.drop 1
      exponent := some (decide (lead < 0), exponentDigits lead) }

/-- A decimal is written as it is spelled. -/
theorem decimalText_eq {digits : Nat} (h : 0 < digits) (power : Int) :
    decimalText digits power = (spelling (dropZeros (Nat.toDigits 10 digits))
      (power + (Nat.toDigits 10 digits).length - 1)).text := by
  obtain ⟨zeros, hsignificand⟩ := significand_dropZeros h
  obtain ⟨c, rest, hds, -⟩ := hsignificand.leading
  unfold decimalText spelling
  dsimp only
  rw [hds]
  generalize power + ((Nat.toDigits 10 digits).length : Int) - 1 = lead
  by_cases hrange : -4 ≤ lead ∧ lead < 16
  · rw [if_pos hrange, if_pos hrange]
    by_cases hneg : lead < 0
    · rw [if_pos hneg, if_pos hneg]
      simp [Spelling.text, Spelling.fractionText, Spelling.exponentText]
    · rw [if_neg hneg, if_neg hneg]
      have hback : ¬ (if ((c :: rest).drop (lead.toNat + 1)).isEmpty then ['0']
          else (c :: rest).drop (lead.toNat + 1)).isEmpty = true := by
        split
        · simp
        next hne => exact hne
      unfold Spelling.text Spelling.fractionText Spelling.exponentText
      dsimp only
      rw [if_neg hback]
      simp only [List.append_assoc, List.append_nil, List.singleton_append]
  · rw [if_neg hrange, if_neg hrange]
    simp [Spelling.text, Spelling.fractionText, Spelling.exponentText, exponentDigits]

/-- The spelling of a decimal is well-formed, shows that it is no integer, and has its value. -/
theorem spelling_spec {number zeros : Nat} {ds : List Char} (h : Significand number ds zeros)
    (lead : Int) :
    (spelling ds lead).WellFormed ∧
      ((spelling ds lead).fraction ≠ [] ∨ (spelling ds lead).exponent.isSome = true) ∧
      ((spelling ds lead).mantissa : ℚ) * 10 ^ (spelling ds lead).power =
        Nat.ofDigitChars 10 ds 0 * 10 ^ (lead + 1 - ds.length) := by
  obtain ⟨c, rest, hds, hc⟩ := h.leading
  have hdigits := h.digits
  have hten : (10 : ℚ) ≠ 0 := by norm_num
  have hzeros : ∀ n : Nat, ∀ c ∈ List.replicate n '0', c.isDigit = true := by
    intro n c hc
    rw [List.eq_of_mem_replicate hc]
    rfl
  unfold spelling
  by_cases hrange : -4 ≤ lead ∧ lead < 16
  · rw [if_pos hrange]
    by_cases hneg : lead < 0
    · -- A point, zeros, and then all digits.
      rw [if_pos hneg]
      refine ⟨⟨?_, ?_, by simp, .inl rfl⟩, .inl (by simp [hds]), ?_⟩
      · exact hzeros 1
      · intro d hd
        exact (List.mem_append.1 hd).elim (hzeros _ d) (hdigits d)
      · unfold Spelling.mantissa Spelling.power Spelling.exponentValue
        dsimp only
        rw [Nat.ofDigitChars_append, Nat.ofDigitChars_append, Nat.ofDigitChars_replicate_zero,
          List.length_append, List.length_replicate]
        have hexponent : (0 : Int) - (((-lead - 1).toNat + ds.length : Nat) : Int) =
            lead + 1 - ds.length := by omega
        rw [hexponent, show Nat.ofDigitChars 10 ['0'] 0 = 0 from rfl, Nat.mul_zero]
    · rw [if_neg hneg]
      set size := lead.toNat + 1 with hsize
      by_cases hshort : ds.length ≤ size
      · -- All digits and zeros before the point.
        have htake : ds.take size = ds := List.take_of_length_le hshort
        have hdrop : ds.drop size = [] := List.drop_of_length_le hshort
        rw [htake, hdrop, if_pos List.isEmpty_nil]
        refine ⟨⟨?_, hzeros 1, by simp, .inr ⟨c, rest ++ List.replicate (size - ds.length) '0',
          by rw [hds]; rfl, hc⟩⟩, .inl (by simp), ?_⟩
        · intro d hd
          exact (List.mem_append.1 hd).elim (hdigits d) (hzeros _ d)
        · unfold Spelling.mantissa Spelling.power Spelling.exponentValue
          dsimp only
          rw [Nat.ofDigitChars_append, Nat.ofDigitChars_append, Nat.ofDigitChars_replicate_zero]
          have hexponent : lead + 1 - (ds.length : Int) = ((size - ds.length : Nat) : Int) := by
            omega
          rw [hexponent, zpow_natCast]
          simp [Nat.ofDigitChars_cons]
          ring
      · -- The point stands between digits.
        have htake : (ds.take size).length = size := by
          rw [List.length_take]
          omega
        have hdrop : (ds.drop size).isEmpty = false := by
          rw [List.isEmpty_eq_false_iff, ne_eq, List.drop_eq_nil_iff]
          exact hshort
        rw [htake, Nat.sub_self, List.replicate_zero, List.append_nil, hdrop, if_neg (by simp)]
        refine ⟨⟨fun d hd => hdigits d (List.mem_of_mem_take hd),
          fun d hd => hdigits d (List.mem_of_mem_drop hd), by simp,
          .inr ⟨c, rest.take lead.toNat, by rw [hds]; rfl, hc⟩⟩,
          .inl (by simpa using hdrop), ?_⟩
        unfold Spelling.mantissa Spelling.power Spelling.exponentValue
        dsimp only
        rw [List.take_append_drop, List.length_drop]
        have hexponent : (0 : Int) - ((ds.length - size : Nat) : Int) = lead + 1 - ds.length := by
          omega
        rw [hexponent]
  · -- One digit before the point, and an exponent.
    rw [if_neg hrange]
    obtain ⟨hne, hexponentDigits, hvalue⟩ := exponentDigits_spec lead
    refine ⟨⟨fun d hd => hdigits d (List.mem_of_mem_take hd),
      fun d hd => hdigits d (List.mem_of_mem_drop hd), ?_, .inr ⟨c, [], by rw [hds]; rfl, hc⟩⟩,
      .inr rfl, ?_⟩
    · rintro negative digits heq
      cases heq
      exact ⟨hne, hexponentDigits⟩
    · unfold Spelling.mantissa Spelling.power Spelling.exponentValue
      dsimp only
      rw [List.take_append_drop, List.length_drop, hvalue]
      have hlength : 0 < ds.length := by rw [hds]; exact Nat.succ_pos _
      have hexponent : (if decide (lead < 0) = true then -(lead.natAbs : Int) else lead.natAbs) -
          ((ds.length - 1 : Nat) : Int) = lead + 1 - ds.length := by
        by_cases hneg : lead < 0
        · rw [if_pos (decide_eq_true hneg)]
          omega
        · rw [if_neg (by simpa using hneg)]
          omega
      rw [hexponent]

/-- A positive decimal is written as a well-formed spelling of its value that is no integer. -/
theorem decimalText_spelling {digits : Nat} (h : 0 < digits) (power : Int) :
    ∃ s : Spelling, decimalText digits power = s.text ∧ s.WellFormed ∧
      (s.fraction ≠ [] ∨ s.exponent.isSome = true) ∧
      (s.mantissa : ℚ) * 10 ^ s.power = digits * 10 ^ power := by
  obtain ⟨zeros, hsignificand⟩ := significand_dropZeros h
  have hlength := hsignificand.length
  obtain ⟨hwell, hshown, hvalue⟩ := spelling_spec hsignificand
    (power + (Nat.toDigits 10 digits).length - 1)
  refine ⟨_, decimalText_eq h power, hwell, hshown, ?_⟩
  have hnumber : (digits : ℚ) = 10 ^ zeros *
      Nat.ofDigitChars 10 (dropZeros (Nat.toDigits 10 digits)) 0 := by
    exact_mod_cast hsignificand.value
  have hexponent : power + ((Nat.toDigits 10 digits).length : Int) - 1 + 1 -
      ((dropZeros (Nat.toDigits 10 digits)).length : Int) = zeros + power := by omega
  rw [hvalue, hexponent, zpow_add₀ (by norm_num), zpow_natCast]
  conv_rhs => rw [hnumber]
  ring

end Binary64

end ProviderKit
