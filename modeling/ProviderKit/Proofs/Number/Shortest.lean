import Mathlib
import ProviderKit.Number.Shortest
import ProviderKit.Proofs.Number.Rounding

/-!
# Shortest decimals read back

`readsBack` decides whether a decimal rounds to a number (`readsBack_iff`). A grid of seventeen
digits is fine enough for one of the two decimals around a number to do so (`decimalAt?_isSome`), so
the search for the shortest decimal always ends with one that reads back (`shortest_roundsTo`).
-/

namespace ProviderKit.Binary64

variable {m : Nat} {e : Int}

/-! ## Comparing with decimals -/

/-- A fraction and a decimal are compared as natural numbers over a common denominator. -/
theorem compareDecimal_eq_compare (num : Nat) {den : Nat} (hden : 0 < den) (digits : Nat)
    (power : Int) :
    ∃ a b : Nat, compareDecimal num den digits power = compare a b ∧
      (a < b ↔ (num / den : ℚ) < digits * 10 ^ power) ∧
      (b < a ↔ digits * 10 ^ power < (num / den : ℚ)) := by
  have hdenQ : (0 : ℚ) < den := by exact_mod_cast hden
  unfold compareDecimal
  split
  next h =>
    obtain ⟨n, rfl⟩ := Int.eq_ofNat_of_zero_le h
    refine ⟨_, _, rfl, ?_, ?_⟩
    · rw [div_lt_iff₀ hdenQ, Int.toNat_natCast, Nat.pow_eq, zpow_natCast]
      exact_mod_cast Iff.rfl
    · rw [lt_div_iff₀ hdenQ, Int.toNat_natCast, Nat.pow_eq, zpow_natCast]
      exact_mod_cast Iff.rfl
  next h =>
    obtain ⟨n, hn⟩ := Int.eq_ofNat_of_zero_le (Int.le_of_lt (Int.neg_pos.2 (Int.not_le.1 h)))
    have hpower : power = -(n : Int) := by omega
    subst hpower
    have hten : (0 : ℚ) < 10 ^ n := by positivity
    refine ⟨_, _, rfl, ?_, ?_⟩
    · rw [zpow_neg, zpow_natCast, ← div_eq_mul_inv, div_lt_div_iff₀ hdenQ hten, neg_neg,
        Int.toNat_natCast, Nat.pow_eq]
      exact_mod_cast Iff.rfl
    · rw [zpow_neg, zpow_natCast, ← div_eq_mul_inv, div_lt_div_iff₀ hten hdenQ, neg_neg,
        Int.toNat_natCast, Nat.pow_eq]
      exact_mod_cast Iff.rfl

/-- A fraction comes before a decimal. -/
theorem compareDecimal_eq_lt (num : Nat) {den : Nat} (hden : 0 < den) (digits : Nat) (power : Int) :
    compareDecimal num den digits power = .lt ↔ (num / den : ℚ) < digits * 10 ^ power := by
  obtain ⟨a, b, hcompare, hlt, -⟩ := compareDecimal_eq_compare num hden digits power
  rw [hcompare, Nat.compare_eq_lt, hlt]

/-- A fraction comes after a decimal. -/
theorem compareDecimal_eq_gt (num : Nat) {den : Nat} (hden : 0 < den) (digits : Nat) (power : Int) :
    compareDecimal num den digits power = .gt ↔ digits * 10 ^ power < (num / den : ℚ) := by
  obtain ⟨a, b, hcompare, -, hgt⟩ := compareDecimal_eq_compare num hden digits power
  rw [hcompare, Nat.compare_eq_gt, hgt]

/-- A fraction is equal to a decimal. -/
theorem compareDecimal_eq_eq (num : Nat) {den : Nat} (hden : 0 < den) (digits : Nat) (power : Int) :
    compareDecimal num den digits power = .eq ↔ (num / den : ℚ) = digits * 10 ^ power := by
  have hlt := compareDecimal_eq_lt num hden digits power
  have hgt := compareDecimal_eq_gt num hden digits power
  constructor
  · intro h
    rw [h] at hlt hgt
    exact le_antisymm (not_lt.1 (fun hx => by simp at hgt; exact absurd hx (not_lt.2 hgt)))
      (not_lt.1 fun hx => by simp at hlt; exact absurd hx (not_lt.2 hlt))
  · intro h
    rw [h] at hlt hgt
    cases hc : compareDecimal num den digits power with
    | eq => rfl
    | lt => exact absurd (hlt.1 hc) (lt_irrefl _)
    | gt => exact absurd (hgt.1 hc) (lt_irrefl _)

/-! ## Reading back -/

/-- The lower of the two fractions between which a decimal has to lie. -/
theorem lowEnd_value (m : Nat) (e : Int) (hm : 0 < m) :
    let low := if decide (m = 2 ^ 52 ∧ -1074 < e) then toFraction (4 * m - 1) (e - 2)
      else toFraction (2 * m - 1) (e - 1)
    0 < low.2 ∧ (low.1 : ℚ) / low.2 = lowEnd m e := by
  dsimp only
  unfold lowEnd
  by_cases h : m = 2 ^ 52 ∧ -1074 < e
  · rw [if_pos h, if_pos (decide_eq_true h)]
    refine ⟨toFraction_pos _ _, ?_⟩
    rw [toFraction_value, Nat.cast_sub (by omega), zpow_sub₀ (by norm_num)]
    push_cast
    ring
  · rw [if_neg h, if_neg (by simpa using h)]
    refine ⟨toFraction_pos _ _, ?_⟩
    rw [toFraction_value, Nat.cast_sub (by omega), zpow_sub₀ (by norm_num)]
    push_cast
    ring

/-- The upper of the two fractions between which a decimal has to lie. -/
theorem highEnd_value (m : Nat) (e : Int) :
    ((toFraction (2 * m + 1) (e - 1)).1 : ℚ) / (toFraction (2 * m + 1) (e - 1)).2 =
      highEnd m e := by
  unfold highEnd
  rw [toFraction_value, zpow_sub₀ (by norm_num)]
  push_cast
  ring

/-- A decimal reads back as a number when it rounds to it. -/
theorem readsBack_iff (hm : 0 < m) (digits : Nat) (power : Int) :
    readsBack m e digits power = true ↔ RoundsTo m e (digits * 10 ^ power) := by
  obtain ⟨hlowPos, hlow⟩ := lowEnd_value m e hm
  have hhighPos := toFraction_pos (2 * m + 1) (e - 1)
  have hhigh := highEnd_value m e
  unfold readsBack
  rw [Nat.pow_eq]
  dsimp only
  generalize (if decide (m = 2 ^ 52 ∧ -1074 < e) then toFraction (4 * m - 1) (e - 2)
    else toFraction (2 * m - 1) (e - 1)) = low at *
  generalize toFraction (2 * m + 1) (e - 1) = high at *
  obtain ⟨lowNum, lowDen⟩ := low
  obtain ⟨highNum, highDen⟩ := high
  dsimp only at *
  simp only [Bool.and_eq_true, Bool.or_eq_true, beq_iff_eq, compareDecimal_eq_lt _ hlowPos,
    compareDecimal_eq_eq _ hlowPos, compareDecimal_eq_gt _ hhighPos,
    compareDecimal_eq_eq _ hhighPos,
    hlow, hhigh]
  constructor
  · rintro ⟨hl, hh⟩
    refine ⟨?_, ?_, fun hodd => ⟨?_, ?_⟩⟩
    · exact hl.elim le_of_lt fun h => h.1.le
    · exact hh.elim le_of_lt fun h => h.1.ge
    · exact hl.resolve_right fun h => by omega
    · exact hh.resolve_right fun h => by omega
  · intro h
    rcases Nat.mod_two_eq_zero_or_one m with heven | hodd
    · exact ⟨h.low.lt_or_eq.imp_right fun heq => ⟨heq, heven⟩,
        h.high.lt_or_eq.imp_right fun heq => ⟨heq.symm, heven⟩⟩
    · exact ⟨.inl (h.strict hodd).1, .inl (h.strict hodd).2⟩

/-! ## The decimals on a grid -/

/-- A fraction divided by a power of ten, as a fraction. -/
def steps (num den : Nat) (power : Int) : Nat × Nat :=
  if 0 ≤ power then (num, den * Nat.pow 10 power.toNat)
  else (num * Nat.pow 10 (-power).toNat, den)

/-- A fraction divided by a power of ten keeps a positive denominator. -/
theorem steps_pos (num : Nat) {den : Nat} (hden : 0 < den) (power : Int) :
    0 < (steps num den power).2 := by
  unfold steps
  split
  · exact Nat.mul_pos hden (Nat.pow_pos (by norm_num))
  · exact hden

/-- The steps of a fraction on a grid have its value. -/
theorem steps_value (num : Nat) {den : Nat} (hden : 0 < den) (power : Int) :
    ((steps num den power).1 : ℚ) / (steps num den power).2 * 10 ^ power = num / den := by
  have hdenQ : (den : ℚ) ≠ 0 := by exact_mod_cast hden.ne'
  unfold steps
  split
  next h =>
    obtain ⟨n, rfl⟩ := Int.eq_ofNat_of_zero_le h
    rw [Int.toNat_natCast, Nat.pow_eq, zpow_natCast]
    push_cast
    field_simp
  next h =>
    obtain ⟨n, hn⟩ := Int.eq_ofNat_of_zero_le (Int.le_of_lt (Int.neg_pos.2 (Int.not_le.1 h)))
    have hpower : power = -(n : Int) := by omega
    subst hpower
    rw [neg_neg, Int.toNat_natCast, Nat.pow_eq, zpow_neg, zpow_natCast]
    push_cast
    field_simp

/-- The last decimal on the grid of a power of ten that is not above a number. -/
def gridBelow (m : Nat) (e power : Int) : Nat :=
  (steps (toFraction m e).1 (toFraction m e).2 power).1 /
    (steps (toFraction m e).1 (toFraction m e).2 power).2

/-- A number lies between the decimal below it on a grid and the next one. -/
theorem gridBelow_bounds (m : Nat) (e power : Int) :
    (gridBelow m e power : ℚ) * 10 ^ power ≤ m * 2 ^ e ∧
      (m : ℚ) * 2 ^ e < (gridBelow m e power + 1) * 10 ^ power := by
  have hden := toFraction_pos m e
  have hten : (0 : ℚ) < 10 ^ power := by positivity
  have hpos := steps_pos (toFraction m e).1 hden power
  rw [← toFraction_value, ← steps_value (toFraction m e).1 hden power]
  unfold gridBelow
  generalize steps (toFraction m e).1 (toFraction m e).2 power = parts at *
  have hposQ : (0 : ℚ) < parts.2 := by exact_mod_cast hpos
  constructor
  · exact mul_le_mul_of_nonneg_right Nat.cast_div_le hten.le
  · refine mul_lt_mul_of_pos_right ?_ hten
    rw [div_lt_iff₀ hposQ]
    have : parts.1 < (parts.1 / parts.2 + 1) * parts.2 := by
      have hdiv := Nat.div_add_mod parts.1 parts.2
      have hmod := Nat.mod_lt parts.1 hpos
      have hexpand : (parts.1 / parts.2 + 1) * parts.2 =
          parts.2 * (parts.1 / parts.2) + parts.2 := by ring
      omega
    exact_mod_cast this

/-- The decimal that is found on a grid reads back. -/
theorem decimalAt?_readsBack {power : Int} {digits : Nat} {found : Int}
    (h : decimalAt? m e power = some (digits, found)) : readsBack m e digits found = true := by
  unfold decimalAt? at h
  dsimp only at h
  generalize (if 0 ≤ power then _ else _ : Nat × Nat) = parts at h
  split_ifs at h with hboth hnear hlow hhigh
  · cases h
    exact (Bool.and_eq_true_iff.1 hboth).1
  · cases h
    exact (Bool.and_eq_true_iff.1 hboth).2
  · cases h
    exact hlow
  · cases h
    exact hhigh

/-- A decimal is found on a grid when one of the two around the number reads back. -/
theorem decimalAt?_isSome {power : Int}
    (h : readsBack m e (gridBelow m e power) power = true ∨
      readsBack m e (gridBelow m e power + 1) power = true) :
    (decimalAt? m e power).isSome = true := by
  unfold gridBelow steps at h
  unfold decimalAt?
  dsimp only
  generalize (if 0 ≤ power then _ else _ : Nat × Nat) = parts at h ⊢
  split_ifs with hboth hnear hlow hhigh
  · rfl
  · rfl
  · rfl
  · rfl
  · exact absurd h (not_or.2 ⟨hlow, hhigh⟩)

/-- One of the two decimals around a number reads back when the grid is finer than the grid of the
number, and twice as fine where the latter is so as well. -/
theorem decimalAt?_of_fine (hm : 0 < m) {power : Int} (hstep : (10 : ℚ) ^ power < 2 ^ e)
    (hfine : m = 2 ^ 52 → 2 * (10 : ℚ) ^ power < 2 ^ e) :
    (decimalAt? m e power).isSome = true := by
  obtain ⟨hbelow, habove⟩ := gridBelow_bounds m e power
  refine decimalAt?_isSome ?_
  rw [readsBack_iff hm, readsBack_iff hm]
  generalize gridBelow m e power = low at *
  push_cast
  have hpow : (0 : ℚ) < 2 ^ e := by positivity
  have hten : (0 : ℚ) < 10 ^ power := by positivity
  have hlowEnd : lowEnd m e < m * 2 ^ e := by
    unfold lowEnd
    split
    · exact mul_lt_mul_of_pos_right (by linarith) hpow
    · exact mul_lt_mul_of_pos_right (by linarith) hpow
  have hhighEnd : highEnd m e = m * 2 ^ e + 2 ^ e / 2 := by
    unfold highEnd
    ring
  -- The next decimal is nearer to the number than the upper end, or the one below it is nearer than
  -- the lower end.
  by_cases hnear : ((low : ℚ) + 1) * 10 ^ power < highEnd m e
  · right
    have hstrict : lowEnd m e < ((low : ℚ) + 1) * 10 ^ power := hlowEnd.trans habove
    exact ⟨hstrict.le, hnear.le, fun _ => ⟨hstrict, hnear⟩⟩
  · left
    have hcoarse : m ≠ 2 ^ 52 := by
      intro hpower
      have := hfine hpower
      linarith
    have hstrict : lowEnd m e < (low : ℚ) * 10 ^ power := by
      unfold lowEnd
      rw [if_neg fun h => hcoarse h.1]
      linarith
    have hhigh : (low : ℚ) * 10 ^ power < highEnd m e := by linarith
    exact ⟨hstrict.le, hhigh.le, fun _ => ⟨hstrict, hhigh⟩⟩

/-! ## The search -/

/-- The leading power of ten is not above the fraction. -/
theorem leadingPower_le {num den k : Nat} (hden : 0 < den) (hk : k < 400)
    (hlarge : den ≤ num * 10 ^ k) : (10 : ℚ) ^ leadingPower num den ≤ num / den := by
  have hdenQ : (0 : ℚ) < den := by exact_mod_cast hden
  unfold leadingPower
  split
  next h =>
    have hpos : 0 < num / den := Nat.div_pos h hden
    calc (10 : ℚ) ^ (((Nat.toDigits 10 (num / den)).length : Int) - 1) ≤ (num / den : Nat) :=
          (digits_bounds hpos).1
      _ ≤ num / den := Nat.cast_div_le
  next h =>
    rcases hfind : (List.range 400).find? fun k => den ≤ num * Nat.pow 10 k with _ | k'
    · have hnone := List.find?_eq_none.1 hfind k (List.mem_range.2 hk)
      exact absurd (decide_eq_true hlarge) hnone
    · have hk' : den ≤ num * 10 ^ k' := by
        have hholds := List.find?_some hfind
        rw [Nat.pow_eq] at hholds
        exact of_decide_eq_true hholds
      have hneg : Int.negOfNat ((some k').getD 400) = -(k' : Int) := Int.negOfNat_eq
      rw [hneg, zpow_neg, zpow_natCast, le_div_iff₀ hdenQ, inv_mul_le_iff₀ (by positivity),
        mul_comm]
      exact_mod_cast hk'

/-- The leading power of ten of a canonical number is not above it. -/
theorem leadingPower_toFraction_le (hcanonical : IsCanonical m e) (hm : 0 < m) :
    (10 : ℚ) ^ leadingPower (toFraction m e).1 (toFraction m e).2 ≤ m * 2 ^ e := by
  have hpos := toFraction_pos m e
  have hposQ : (0 : ℚ) < (toFraction m e).2 := by exact_mod_cast hpos
  have hone : (1 : ℚ) ≤ m := by exact_mod_cast hm
  have hleast := hcanonical.least
  obtain ⟨k, hk⟩ : ∃ k : Nat, k = 399 := ⟨_, rfl⟩
  -- The least positive number is far above the last power that is tried.
  have hvalue : ((10 : ℚ) ^ k)⁻¹ ≤ m * 2 ^ e := by
    calc ((10 : ℚ) ^ k)⁻¹ = (10 ^ (k : Int))⁻¹ := by rw [zpow_natCast]
      _ ≤ (2 ^ (3 * (k : Int)))⁻¹ :=
        inv_anti₀ (by positivity) (two_pow_le_ten_pow (Int.natCast_nonneg k))
      _ = 2 ^ (-(3 * (k : Int))) := (zpow_neg _ _).symm
      _ ≤ 2 ^ e := zpow_le_zpow_right₀ (by norm_num) (by omega)
      _ ≤ m * 2 ^ e := le_mul_of_one_le_left (by positivity) hone
  rw [← toFraction_value, le_div_iff₀ hposQ, inv_mul_le_iff₀ (by positivity), mul_comm] at hvalue
  rw [← toFraction_value]
  exact leadingPower_le hpos (by omega : k < 400) (by exact_mod_cast hvalue)

/-- The shortest decimal of a canonical number rounds to it. -/
theorem shortest_roundsTo (hcanonical : IsCanonical m e) (hm : 0 < m) :
    RoundsTo m e ((shortest m e).1 * 10 ^ (shortest m e).2) := by
  have hlead := leadingPower_toFraction_le hcanonical hm
  have hfits : (m : ℚ) < 2 ^ 53 := by exact_mod_cast hcanonical.fits
  have hpow : (0 : ℚ) < 2 ^ e := by positivity
  unfold shortest
  dsimp only
  set lead := leadingPower (toFraction m e).1 (toFraction m e).2
  -- Seventeen digits are enough: the steps of their grid are smaller than those of the number's.
  have hstep : (10 : ℚ) ^ (lead - (16 : Nat)) ≤ m * 2 ^ e / 10 ^ 16 := by
    rw [zpow_sub₀ (by norm_num), zpow_natCast]
    exact div_le_div_of_nonneg_right hlead (by positivity)
  have hlast : (decimalAt? m e (lead - (16 : Nat))).isSome = true := by
    refine decimalAt?_of_fine hm ?_ fun hpower => ?_
    · calc (10 : ℚ) ^ (lead - (16 : Nat)) ≤ m * 2 ^ e / 10 ^ 16 := hstep
        _ < 2 ^ e := by
          rw [div_lt_iff₀ (by positivity), mul_comm]
          exact mul_lt_mul_of_pos_left (by linarith) hpow
    · subst hpower
      push_cast at hstep ⊢
      linarith
  rcases hfind : (List.range 17).findSome? fun k => decimalAt? m e (lead - (k : Nat)) with
    _ | ⟨digits, power⟩
  · have hnone := List.findSome?_eq_none_iff.1 hfind 16 (by simp)
    rw [hnone] at hlast
    cases hlast
  · obtain ⟨k, -, hfound⟩ := List.exists_of_findSome?_eq_some hfind
    exact (readsBack_iff hm digits power).1 (decimalAt?_readsBack hfound)

end ProviderKit.Binary64
