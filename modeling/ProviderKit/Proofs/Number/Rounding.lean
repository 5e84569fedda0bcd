import Mathlib
import ProviderKit.Number.Binary64

/-!
# Rounding to binary64

Fractions are compared as rationals. A rational rounds to a positive number when it lies between the
points halfway to the two neighbours of the number (`RoundsTo`); from there `ofRational` and
`ofDecimal` lead to that number, whichever fraction the rational is given by.
-/

namespace ProviderKit.Binary64

/-- The mantissa and the exponent are those of a canonical form. -/
structure IsCanonical (mantissa : Nat) (exponent : Int) : Prop where
  /-- The mantissa fits. -/
  fits : mantissa < 2 ^ 53
  /-- The exponent is not too small. -/
  least : -1074 ≤ exponent
  /-- The exponent is not too large. -/
  most : exponent ≤ 971
  /-- The mantissa is full, except at the bottom of the range. -/
  full : 2 ^ 52 ≤ mantissa ∨ exponent = -1074

/-- The number is in canonical form. -/
def Canonical : Binary64 → Prop
  | finite _ mantissa exponent => IsCanonical mantissa exponent
  | infinity _ | nan => True

/-! ## Fractions -/

/-- The denominator of a finite number is positive. -/
theorem toFraction_pos (mantissa : Nat) (exponent : Int) :
    0 < (toFraction mantissa exponent).2 := by
  unfold toFraction
  split
  · exact Nat.one_pos
  · exact Nat.pow_pos (by decide)

/-- The fraction of a finite number is its value. -/
theorem toFraction_value (mantissa : Nat) (exponent : Int) :
    ((toFraction mantissa exponent).1 : ℚ) / (toFraction mantissa exponent).2 =
      mantissa * 2 ^ exponent := by
  unfold toFraction
  split
  next h =>
    obtain ⟨n, rfl⟩ := Int.eq_ofNat_of_zero_le h
    simp
  next h =>
    obtain ⟨n, hn⟩ := Int.eq_ofNat_of_zero_le (Int.le_of_lt (Int.neg_pos.2 (Int.not_le.1 h)))
    have hexponent : exponent = -(n : Int) := by omega
    subst hexponent
    simp [div_eq_mul_inv]

/-- A scaled fraction keeps a positive denominator. -/
theorem scaled_pos (num : Nat) {den : Nat} (hden : 0 < den) (exponent : Int) :
    0 < (scaled num den exponent).2 := by
  unfold scaled
  split
  · exact Nat.mul_pos hden (Nat.pow_pos (by decide))
  · exact hden

/-- Scaling divides by a power of two. -/
theorem scaled_value (num den : Nat) (exponent : Int) :
    ((scaled num den exponent).1 : ℚ) / (scaled num den exponent).2 =
      (num / den : ℚ) * 2 ^ (-exponent) := by
  unfold scaled
  split
  next h =>
    obtain ⟨n, rfl⟩ := Int.eq_ofNat_of_zero_le h
    simp only [Int.toNat_natCast, Nat.pow_eq, Nat.cast_mul, Nat.cast_pow, Nat.cast_ofNat, zpow_neg,
      zpow_natCast]
    rw [div_mul_eq_div_div, ← div_eq_mul_inv]
  next h =>
    obtain ⟨n, hn⟩ := Int.eq_ofNat_of_zero_le (Int.le_of_lt (Int.neg_pos.2 (Int.not_le.1 h)))
    have hexponent : exponent = -(n : Int) := by omega
    subst hexponent
    simp [div_eq_mul_inv, mul_right_comm]

/-! ## The nearest natural number -/

/-- The natural number is nearest to a rational; halfway between two it is the even one. -/
structure Nearest (x : ℚ) (m : Nat) : Prop where
  low : (m : ℚ) - 1 / 2 ≤ x
  high : x ≤ m + 1 / 2
  strict : m % 2 = 1 → (m : ℚ) - 1 / 2 < x ∧ x < m + 1 / 2

/-- Rounding half to even finds the nearest natural number. -/
theorem roundHalfEven_of_nearest {num den m : Nat} (hden : 0 < den)
    (h : Nearest ((num : ℚ) / den) m) : roundHalfEven num den = m := by
  have hpos : (0 : ℚ) < den := by exact_mod_cast hden
  have hlow : 2 * (m * den) ≤ 2 * num + den := by
    have hx := h.low
    rw [le_div_iff₀ hpos] at hx
    have : (2 * (m * den) : ℚ) ≤ 2 * num + den := by linarith
    exact_mod_cast this
  have hhigh : 2 * num ≤ 2 * (m * den) + den := by
    have hx := h.high
    rw [div_le_iff₀ hpos] at hx
    have : (2 * num : ℚ) ≤ 2 * (m * den) + den := by linarith
    exact_mod_cast this
  have hstrict : m % 2 = 1 → 2 * (m * den) < 2 * num + den ∧ 2 * num < 2 * (m * den) + den := by
    intro hodd
    obtain ⟨hx, hy⟩ := h.strict hodd
    rw [lt_div_iff₀ hpos] at hx
    rw [div_lt_iff₀ hpos] at hy
    have hx' : (2 * (m * den) : ℚ) < 2 * num + den := by linarith
    have hy' : (2 * num : ℚ) < 2 * (m * den) + den := by linarith
    exact ⟨by exact_mod_cast hx', by exact_mod_cast hy'⟩
  have hdiv := Nat.div_add_mod num den
  have hmod := Nat.mod_lt num hden
  have hcases : m = num / den ∨ m = num / den + 1 := by
    have h1 : num / den < m + 1 := by
      by_contra hge
      have := Nat.mul_le_mul_left den (Nat.not_lt.1 hge)
      have : den * (m + 1) = m * den + den := by ring
      omega
    have h2 : m < num / den + 2 := by
      by_contra hge
      have := Nat.mul_le_mul_left den (Nat.not_lt.1 hge)
      have hleft : den * (num / den + 2) = den * (num / den) + 2 * den := by ring
      have hright : den * m = m * den := Nat.mul_comm _ _
      omega
    omega
  unfold roundHalfEven
  dsimp only
  rcases hcases with hm | hm
  · have hprod : m * den = den * (num / den) := by rw [hm, Nat.mul_comm]
    rw [if_pos (by omega), hm]
  · have hprod : m * den = den * (num / den) + den := by rw [hm]; ring
    rw [if_neg (by omega), hm]

/-- Rounding goes to one of the two natural numbers around a fraction. -/
theorem roundHalfEven_bounds (num den : Nat) :
    num / den ≤ roundHalfEven num den ∧ roundHalfEven num den ≤ num / den + 1 := by
  unfold roundHalfEven
  dsimp only
  split <;> omega

/-! ## The exponent -/

/-- A number lies between the powers of two that its logarithm names. -/
theorem log2_bounds {n : Nat} (h : 0 < n) :
    (2 : ℚ) ^ (Nat.log2 n : Int) ≤ n ∧ (n : ℚ) < 2 ^ ((Nat.log2 n : Int) + 1) := by
  have hlow : 2 ^ n.log2 ≤ n := Nat.log2_self_le h.ne'
  have hhigh : n < 2 ^ (n.log2 + 1) := Nat.lt_log2_self
  constructor
  · rw [zpow_natCast]
    exact_mod_cast hlow
  · have hcast : (2 : ℚ) ^ ((Nat.log2 n : Int) + 1) = 2 ^ (n.log2 + 1) := by
      rw [← zpow_natCast]
      norm_cast
    rw [hcast]
    exact_mod_cast hhigh

/-- Before it is kept in the range of the format, the exponent leaves 53 bits before the point. -/
theorem exponentOf_spec {num den : Nat} (hnum : 0 < num) (hden : 0 < den) :
    ∃ E : Int, exponentOf num den = max E (-1074) ∧
      (2 : ℚ) ^ (52 + E) ≤ num / den ∧ (num / den : ℚ) < 2 ^ (53 + E) := by
  obtain ⟨hnumLow, hnumHigh⟩ := log2_bounds hnum
  obtain ⟨hdenLow, hdenHigh⟩ := log2_bounds hden
  have hdenPos : (0 : ℚ) < den := by exact_mod_cast hden
  set guess : Int := (Nat.log2 num : Int) - Nat.log2 den - 53 with hguess
  -- The guess is right up to one bit, since each logarithm is right up to one.
  have hlow : (2 : ℚ) ^ (52 + guess) ≤ num / den := by
    rw [le_div_iff₀ hdenPos]
    calc (2 : ℚ) ^ (52 + guess) * den
        ≤ 2 ^ (52 + guess) * 2 ^ ((Nat.log2 den : Int) + 1) :=
          mul_le_mul_of_nonneg_left hdenHigh.le (by positivity)
      _ = 2 ^ (Nat.log2 num : Int) := by
          rw [← zpow_add₀ (by norm_num)]
          congr 1
          omega
      _ ≤ num := hnumLow
  have hhigh : (num / den : ℚ) < 2 ^ (54 + guess) := by
    rw [div_lt_iff₀ hdenPos]
    calc (num : ℚ) < 2 ^ ((Nat.log2 num : Int) + 1) := hnumHigh
      _ = 2 ^ (54 + guess) * 2 ^ (Nat.log2 den : Int) := by
          rw [← zpow_add₀ (by norm_num)]
          congr 1
          omega
      _ ≤ 2 ^ (54 + guess) * den := mul_le_mul_of_nonneg_left hdenLow (by positivity)
  have hfloor : (scaled num den guess).1 / (scaled num den guess).2 < 2 ^ 53 ↔
      (num / den : ℚ) < 2 ^ (53 + guess) := by
    have hpos := scaled_pos num hden guess
    have hposQ : (0 : ℚ) < (scaled num den guess).2 := by exact_mod_cast hpos
    rw [Nat.div_lt_iff_lt_mul hpos]
    have hcast : (scaled num den guess).1 < 2 ^ 53 * (scaled num den guess).2 ↔
        ((scaled num den guess).1 : ℚ) < 2 ^ 53 * (scaled num den guess).2 := by
      exact_mod_cast Iff.rfl
    rw [hcast, ← div_lt_iff₀ hposQ, scaled_value, zpow_neg, ← div_eq_mul_inv,
      div_lt_iff₀ (by positivity), zpow_add₀ (by norm_num)]
    norm_num
  unfold exponentOf
  dsimp only
  rw [← hguess, Nat.pow_eq]
  by_cases h : (scaled num den guess).1 / (scaled num den guess).2 < 2 ^ 53
  · exact ⟨guess, by rw [if_pos h], hlow, hfloor.1 h⟩
  · refine ⟨guess + 1, by rw [if_neg h], ?_, ?_⟩
    · rw [show (52 : Int) + (guess + 1) = 53 + guess by omega]
      exact not_lt.1 fun hlt => h (hfloor.2 hlt)
    · rwa [show (53 : Int) + (guess + 1) = 54 + guess by omega]

/-- The exponent of a fraction that has the bits of a canonical form. -/
theorem exponentOf_eq {num den : Nat} (hnum : 0 < num) (hden : 0 < den) {e : Int}
    (hleast : -1074 ≤ e) (hlow : (2 : ℚ) ^ (52 + e) ≤ num / den ∨ e = -1074)
    (hhigh : (num / den : ℚ) < 2 ^ (53 + e)) : exponentOf num den = e := by
  obtain ⟨E, hexponent, hE, hE'⟩ := exponentOf_spec hnum hden
  have hupper : 52 + E < 53 + e := (zpow_lt_zpow_iff_right₀ (by norm_num)).1 (hE.trans_lt hhigh)
  rw [hexponent]
  rcases hlow with hlow | hbottom
  · have hlower : 52 + e < 53 + E := (zpow_lt_zpow_iff_right₀ (by norm_num)).1 (hlow.trans_lt hE')
    omega
  · omega

/-! ## The rationals that round to a number -/

/-- The point halfway from a positive number to its neighbour below. Below a power of two the grid
is twice as fine, except at the bottom of the range. -/
def lowEnd (m : Nat) (e : Int) : ℚ :=
  if m = 2 ^ 52 ∧ -1074 < e then (m - 1 / 4) * 2 ^ e else (m - 1 / 2) * 2 ^ e

/-- The point halfway from a positive number to its neighbour above. -/
def highEnd (m : Nat) (e : Int) : ℚ := (m + 1 / 2) * 2 ^ e

/-- The rational rounds to a positive number. -/
structure RoundsTo (m : Nat) (e : Int) (x : ℚ) : Prop where
  low : lowEnd m e ≤ x
  high : x ≤ highEnd m e
  /-- The ends round to the number only if its mantissa is even. -/
  strict : m % 2 = 1 → lowEnd m e < x ∧ x < highEnd m e

variable {m : Nat} {e : Int} {x : ℚ}

/-- The lower end is at least half a unit below the number. -/
theorem le_lowEnd (m : Nat) (e : Int) : ((m : ℚ) - 1 / 2) * 2 ^ e ≤ lowEnd m e := by
  unfold lowEnd
  split
  · exact mul_le_mul_of_nonneg_right (by linarith) (by positivity)
  · exact le_refl _

/-- What rounds to a positive number is positive. -/
theorem RoundsTo.pos (h : RoundsTo m e x) (hm : 0 < m) : 0 < x := by
  have hone : (1 : ℚ) ≤ m := by exact_mod_cast hm
  have hpow : (0 : ℚ) < 2 ^ e := by positivity
  calc (0 : ℚ) < (m - 1 / 2) * 2 ^ e := mul_pos (by linarith) hpow
    _ ≤ lowEnd m e := le_lowEnd m e
    _ ≤ x := h.low

/-- What rounds to a canonical number has no more bits before the point than the number. -/
theorem RoundsTo.lt (h : RoundsTo m e x) (hm : m < 2 ^ 53) : x < 2 ^ (53 + e) := by
  have hle : (m : ℚ) ≤ 2 ^ 53 - 1 := by
    have : (m : ℚ) + 1 ≤ 2 ^ 53 := by exact_mod_cast hm
    linarith
  have hpow : (0 : ℚ) < 2 ^ e := by positivity
  calc x ≤ (m + 1 / 2) * 2 ^ e := h.high
    _ < 2 ^ 53 * 2 ^ e := mul_lt_mul_of_pos_right (by linarith) hpow
    _ = 2 ^ (53 + e) := by rw [zpow_add₀ (by norm_num)]; norm_num

/-- What rounds to a number on the coarse side of its grid is nearest to its mantissa. -/
theorem RoundsTo.nearest (h : RoundsTo m e x) : Nearest (x * 2 ^ (-e)) m := by
  have hpow : (0 : ℚ) < 2 ^ e := by positivity
  have hlow := le_lowEnd m e
  rw [zpow_neg, ← div_eq_mul_inv]
  refine ⟨?_, ?_, fun hodd => ?_⟩
  · rw [le_div_iff₀ hpow]
    exact hlow.trans h.low
  · rw [div_le_iff₀ hpow]
    exact h.high
  · obtain ⟨hl, hh⟩ := h.strict hodd
    rw [lt_div_iff₀ hpow, div_lt_iff₀ hpow]
    exact ⟨hlow.trans_lt hl, hh⟩

/-- Only a power of two has numbers below it that round to it and have one bit less. -/
theorem RoundsTo.eq_of_lt (h : RoundsTo m e x) (hfull : 2 ^ 52 ≤ m) (hlt : x < 2 ^ (52 + e)) :
    m = 2 ^ 52 := by
  by_contra hne
  have hmore : (2 : ℚ) ^ 52 + 1 ≤ m := by
    have : 2 ^ 52 + 1 ≤ m := by omega
    exact_mod_cast this
  have hpow : (0 : ℚ) < 2 ^ e := by positivity
  have : (2 : ℚ) ^ (52 + e) ≤ x := by
    calc (2 : ℚ) ^ (52 + e) = 2 ^ 52 * 2 ^ e := by rw [zpow_add₀ (by norm_num)]; norm_num
      _ ≤ (m - 1 / 2) * 2 ^ e := mul_le_mul_of_nonneg_right (by linarith) hpow.le
      _ ≤ x := (le_lowEnd m e).trans h.low
  linarith

/-- What rounds to a power of two from below is nearest to twice its mantissa on the finer grid. -/
theorem RoundsTo.nearest_below (h : RoundsTo (2 ^ 52) e x) (hleast : -1074 < e)
    (hlt : x < 2 ^ (52 + e)) :
    (2 : ℚ) ^ (52 + (e - 1)) ≤ x ∧ Nearest (x * 2 ^ (-(e - 1))) (2 ^ 53) := by
  have hpow : (0 : ℚ) < 2 ^ (e - 1) := by positivity
  have hhalf : (2 : ℚ) ^ e = 2 * 2 ^ (e - 1) := by
    rw [show e = 1 + (e - 1) by omega, zpow_add₀ (by norm_num)]
    norm_num
  have hlow : (2 ^ 52 - 1 / 4) * (2 * 2 ^ (e - 1)) ≤ x := by
    have hx := h.low
    unfold lowEnd at hx
    rw [if_pos ⟨rfl, hleast⟩, hhalf] at hx
    exact_mod_cast hx
  rw [zpow_add₀ (by norm_num), hhalf] at hlt
  rw [zpow_add₀ (by norm_num), zpow_neg, ← div_eq_mul_inv]
  norm_num at hlt hlow ⊢
  refine ⟨by linarith, ?_, ?_, fun hodd => by omega⟩
  · rw [le_div_iff₀ hpow]
    norm_num
    linarith
  · rw [div_le_iff₀ hpow]
    norm_num
    linarith

/-- A fraction that rounds to a canonical positive number is rounded to it. -/
theorem ofRational_of_roundsTo (hcanonical : IsCanonical m e) (hm : 0 < m) {num den : Nat}
    (hden : 0 < den) (h : RoundsTo m e ((num : ℚ) / den)) (negative : Bool) :
    ofRational negative num den = finite negative m e := by
  have hx := h.pos hm
  have hnum : 0 < num := by
    rcases Nat.eq_zero_or_pos num with rfl | hpos
    · simp at hx
    · exact hpos
  have hlt := h.lt hcanonical.fits
  have hmost := hcanonical.most
  unfold ofRational
  rw [if_neg (by omega)]
  dsimp only
  rw [Nat.pow_eq, Nat.pow_eq]
  by_cases hlow : (2 : ℚ) ^ (52 + e) ≤ num / den ∨ e = -1074
  · -- The fraction is rounded on the grid of the number.
    have hnearest := h.nearest
    rw [← scaled_value] at hnearest
    rw [exponentOf_eq hnum hden hcanonical.least hlow hlt,
      roundHalfEven_of_nearest (scaled_pos num hden e) hnearest, if_neg hcanonical.fits.ne]
    dsimp only
    rw [if_neg (by omega)]
  · -- The fraction is rounded on the finer grid below a power of two, and carries into it.
    obtain ⟨hbelow, hbottom⟩ := not_or.1 hlow
    rw [not_le] at hbelow
    have hleast := lt_of_le_of_ne hcanonical.least (Ne.symm hbottom)
    have hpower : m = 2 ^ 52 := h.eq_of_lt (hcanonical.full.resolve_right hbottom) hbelow
    subst hpower
    obtain ⟨hfine, hnearest⟩ := h.nearest_below hleast hbelow
    have hexponent : exponentOf num den = e - 1 :=
      exponentOf_eq hnum hden (by omega) (.inl hfine)
        (by rwa [show (53 : Int) + (e - 1) = 52 + e by omega])
    rw [← scaled_value] at hnearest
    rw [hexponent, roundHalfEven_of_nearest (scaled_pos num hden _) hnearest, if_pos rfl]
    dsimp only
    rw [if_neg (by omega), show e - 1 + 1 = e by omega]

/-! ## Canonical forms -/

/-- A number that is made from a fraction is in canonical form. -/
theorem ofRational_canonical (negative : Bool) (num den : Nat) :
    (ofRational negative num den).Canonical := by
  have hzero : IsCanonical 0 (-1074) := ⟨by norm_num, by norm_num, by norm_num, .inr rfl⟩
  unfold ofRational
  split
  · exact hzero
  next h =>
    obtain ⟨hnum, hden⟩ := not_or.1 h
    obtain ⟨E, hexponent, hlow, hhigh⟩ :=
      exponentOf_spec (Nat.pos_of_ne_zero hnum) (Nat.pos_of_ne_zero hden)
    dsimp only
    set e := exponentOf num den with he
    have hpos := scaled_pos num (Nat.pos_of_ne_zero hden) e
    have hposQ : (0 : ℚ) < (scaled num den e).2 := by exact_mod_cast hpos
    obtain ⟨hfloor, hceil⟩ := roundHalfEven_bounds (scaled num den e).1 (scaled num den e).2
    have hvalue := scaled_value num den e
    rw [zpow_neg, ← div_eq_mul_inv] at hvalue
    have hpow : (0 : ℚ) < 2 ^ e := by positivity
    have hbelow : (scaled num den e).1 / (scaled num den e).2 < 2 ^ 53 := by
      rw [Nat.div_lt_iff_lt_mul hpos]
      have : ((scaled num den e).1 : ℚ) < 2 ^ 53 * (scaled num den e).2 := by
        rw [← div_lt_iff₀ hposQ, hvalue, div_lt_iff₀ hpow]
        calc (num / den : ℚ) < 2 ^ (53 + E) := hhigh
          _ ≤ 2 ^ (53 + e) := zpow_le_zpow_right₀ (by norm_num) (by omega)
          _ = 2 ^ 53 * 2 ^ e := by rw [zpow_add₀ (by norm_num)]; norm_num
      exact_mod_cast this
    have hfull : 2 ^ 52 ≤ (scaled num den e).1 / (scaled num den e).2 ∨ e = -1074 := by
      by_cases hE : e = E
      · left
        rw [Nat.le_div_iff_mul_le hpos]
        have : (2 : ℚ) ^ 52 * (scaled num den e).2 ≤ (scaled num den e).1 := by
          rw [← le_div_iff₀ hposQ, hvalue, le_div_iff₀ hpow]
          calc (2 : ℚ) ^ 52 * 2 ^ e = 2 ^ (52 + E) := by
                rw [hE, zpow_add₀ (by norm_num)]; norm_num
            _ ≤ num / den := hlow
        exact_mod_cast this
      · right
        omega
    rw [Nat.pow_eq, Nat.pow_eq]
    by_cases hcarry : roundHalfEven (scaled num den e).1 (scaled num den e).2 = 2 ^ 53
    · rw [if_pos hcarry]
      dsimp only
      split
      · trivial
      · exact ⟨by norm_num, by omega, by omega, .inl (le_refl _)⟩
    · rw [if_neg hcarry]
      dsimp only
      split
      · trivial
      · exact ⟨by omega, by omega, by omega, hfull.imp_left fun h => h.trans hfloor⟩

/-- A number that is made from a decimal is in canonical form. -/
theorem ofDecimal_canonical (negative : Bool) (mantissa : Nat) (exponent : Int) :
    (ofDecimal negative mantissa exponent).Canonical := by
  have hzero : IsCanonical 0 (-1074) := ⟨by norm_num, by norm_num, by norm_num, .inr rfl⟩
  unfold ofDecimal
  dsimp only
  split_ifs
  · exact hzero
  · trivial
  · exact hzero
  · exact ofRational_canonical _ _ _
  · exact ofRational_canonical _ _ _

/-! ## Decimals -/

/-- Powers of ten outgrow those of two. -/
theorem two_pow_le_ten_pow {n : Int} (h : 0 ≤ n) : (2 : ℚ) ^ (3 * n) ≤ 10 ^ n := by
  obtain ⟨k, rfl⟩ := Int.eq_ofNat_of_zero_le h
  rw [zpow_mul, zpow_natCast, zpow_natCast]
  exact pow_le_pow_left₀ (by norm_num) (by norm_num) k

/-- A positive number lies between the powers of ten that its number of digits names. -/
theorem digits_bounds {n : Nat} (h : 0 < n) :
    (10 : ℚ) ^ (((Nat.toDigits 10 n).length : Int) - 1) ≤ n ∧
      (n : ℚ) < 10 ^ ((Nat.toDigits 10 n).length : Int) := by
  have hlength : 0 < (Nat.toDigits 10 n).length := Nat.length_toDigits_pos
  constructor
  · have hlow : 10 ^ ((Nat.toDigits 10 n).length - 1) ≤ n := by
      by_contra hlt
      rcases Nat.eq_zero_or_pos ((Nat.toDigits 10 n).length - 1) with hone | hmore
      · rw [hone] at hlt
        omega
      · have := (Nat.length_toDigits_le_iff (by norm_num) hmore).2 (Nat.not_le.1 hlt)
        omega
    rw [show ((Nat.toDigits 10 n).length : Int) - 1 = ((Nat.toDigits 10 n).length - 1 : Nat) by
      omega, zpow_natCast]
    exact_mod_cast hlow
  · have hhigh := (Nat.length_toDigits_le_iff (by norm_num) hlength).1 (le_refl _)
    rw [zpow_natCast]
    exact_mod_cast hhigh

/-- A decimal that rounds to a canonical positive number is rounded to it. -/
theorem ofDecimal_of_roundsTo (hcanonical : IsCanonical m e) (hm : 0 < m) {digits : Nat}
    {power : Int} (h : RoundsTo m e (digits * 10 ^ power)) (negative : Bool) :
    ofDecimal negative digits power = finite negative m e := by
  have hx := h.pos hm
  have hten : (0 : ℚ) < 10 ^ power := by positivity
  have hdigits : 0 < digits := by
    rcases Nat.eq_zero_or_pos digits with rfl | hpos
    · simp at hx
    · exact hpos
  obtain ⟨hlow, hhigh⟩ := digits_bounds hdigits
  have hmost := hcanonical.most
  have hleast := hcanonical.least
  unfold ofDecimal
  dsimp only
  set size : Int := ((Nat.toDigits 10 digits).length : Int) with hsize
  -- The magnitude decides nothing here: ten to the 400th is beyond every number that is rounded to,
  -- and a tenth to the 401st is below half the least of them.
  have hnotLarge : ¬ 400 < size + power := by
    intro hlarge
    have : (10 : ℚ) ^ (400 : Int) ≤ 2 ^ (53 + e) := by
      calc (10 : ℚ) ^ (400 : Int) ≤ 10 ^ (size - 1 + power) :=
            zpow_le_zpow_right₀ (by norm_num) (by omega)
        _ = 10 ^ (size - 1) * 10 ^ power := zpow_add₀ (by norm_num) _ _
        _ ≤ digits * 10 ^ power := mul_le_mul_of_nonneg_right hlow hten.le
        _ ≤ 2 ^ (53 + e) := (h.lt hcanonical.fits).le
    have hmuch : (2 : ℚ) ^ (53 + e) < 10 ^ (400 : Int) := by
      calc (2 : ℚ) ^ (53 + e) < 2 ^ (3 * (400 : Int)) :=
            zpow_lt_zpow_right₀ (by norm_num) (by omega)
        _ ≤ 10 ^ (400 : Int) := two_pow_le_ten_pow (by norm_num)
    exact absurd this (not_le.2 hmuch)
  have hnotSmall : ¬ size + power < -400 := by
    intro hsmall
    have hbottom : (2 : ℚ) ^ (-1075 : Int) ≤ digits * 10 ^ power := by
      have hone : (1 : ℚ) ≤ m := by exact_mod_cast hm
      calc (2 : ℚ) ^ (-1075 : Int) ≤ 2 ^ (-1 + e) := zpow_le_zpow_right₀ (by norm_num) (by omega)
        _ = 1 / 2 * 2 ^ e := by rw [zpow_add₀ (by norm_num)]; norm_num
        _ ≤ (m - 1 / 2) * 2 ^ e := mul_le_mul_of_nonneg_right (by linarith) (by positivity)
        _ ≤ digits * 10 ^ power := (le_lowEnd m e).trans h.low
    have htop : digits * (10 : ℚ) ^ power < 10 ^ (-401 : Int) := by
      calc digits * (10 : ℚ) ^ power < 10 ^ size * 10 ^ power :=
            mul_lt_mul_of_pos_right hhigh hten
        _ = 10 ^ (size + power) := (zpow_add₀ (by norm_num) _ _).symm
        _ ≤ 10 ^ (-401 : Int) := zpow_le_zpow_right₀ (by norm_num) (by omega)
    have hmuch : (10 : ℚ) ^ (-401 : Int) < 2 ^ (-1075 : Int) := by
      calc (10 : ℚ) ^ (-401 : Int) = (10 ^ (401 : Int))⁻¹ := zpow_neg _ _
        _ ≤ (2 ^ (3 * (401 : Int)))⁻¹ :=
          inv_anti₀ (by positivity) (two_pow_le_ten_pow (by norm_num))
        _ = 2 ^ (-(3 * (401 : Int))) := (zpow_neg _ _).symm
        _ < 2 ^ (-1075 : Int) := zpow_lt_zpow_right₀ (by norm_num) (by norm_num)
    exact absurd (hbottom.trans_lt (htop.trans hmuch)) (lt_irrefl _)
  rw [if_neg hdigits.ne', if_neg hnotLarge, if_neg hnotSmall, Nat.pow_eq, Nat.pow_eq]
  split
  next hpower =>
    refine ofRational_of_roundsTo hcanonical hm Nat.one_pos ?_ negative
    obtain ⟨n, rfl⟩ := Int.eq_ofNat_of_zero_le hpower
    simpa using h
  next hpower =>
    refine ofRational_of_roundsTo hcanonical hm (Nat.pow_pos (by norm_num)) ?_ negative
    obtain ⟨n, hn⟩ := Int.eq_ofNat_of_zero_le (Int.le_of_lt (Int.neg_pos.2 (Int.not_le.1 hpower)))
    have hneg : power = -(n : Int) := by omega
    subst hneg
    simpa [div_eq_mul_inv] using h

end ProviderKit.Binary64
