/-!
# Binary64 numbers

Floating-point numbers as exact values: a sign and `mantissa · 2^exponent`, an infinity, or not a
number. A finite number is kept in its only canonical form: the mantissa is below `2^53`, the
exponent at least `-1074`, and the mantissa is at least `2^52` unless the exponent is `-1074`.
Rounding takes an exact rational to the nearest number, a tie to the one with an even mantissa.
-/

namespace ProviderKit

/-- A number of the 64-bit binary interchange format. -/
inductive Binary64 where
  /-- The number `mantissa · 2^exponent`, negated if `negative`. -/
  | finite (negative : Bool) (mantissa : Nat) (exponent : Int)
  | infinity (negative : Bool)
  | nan
deriving DecidableEq, Inhabited

namespace Binary64

/-- Zero with a sign. -/
def zero (negative : Bool) : Binary64 := finite negative 0 (-1074)

/-- The fraction `num / den` times `2^(-exponent)`, as a fraction. -/
def scaled (num den : Nat) (exponent : Int) : Nat × Nat :=
  if 0 ≤ exponent then (num, den * Nat.pow 2 exponent.toNat)
  else (num * Nat.pow 2 (-exponent).toNat, den)

/-- The natural number nearest to `num / den`; a tie goes to the even one. -/
def roundHalfEven (num den : Nat) : Nat :=
  let q := num / den
  let r := num % den
  if 2 * r < den ∨ (2 * r = den ∧ q % 2 = 0) then q else q + 1

/-- The exponent of the canonical form nearest to `num / den`, before a carry. -/
def exponentOf (num den : Nat) : Int :=
  let guess : Int := (Nat.log2 num : Int) - Nat.log2 den - 53
  let (n, d) := scaled num den guess
  max (if n / d < Nat.pow 2 53 then guess else guess + 1) (-1074)

/-- The number nearest to `num / den`. -/
def ofRational (negative : Bool) (num den : Nat) : Binary64 :=
  if num = 0 ∨ den = 0 then zero negative
  else
    let exponent := exponentOf num den
    let (n, d) := scaled num den exponent
    let mantissa := roundHalfEven n d
    let (mantissa, exponent) :=
      if mantissa = Nat.pow 2 53 then (Nat.pow 2 52, exponent + 1) else (mantissa, exponent)
    if 971 < exponent then infinity negative else finite negative mantissa exponent

/-- The number nearest to `mantissa · 10^exponent`. Far outside the range of the format the
answer is known from the number of digits alone. -/
def ofDecimal (negative : Bool) (mantissa : Nat) (exponent : Int) : Binary64 :=
  let magnitude : Int := (Nat.toDigits 10 mantissa).length + exponent
  if mantissa = 0 then zero negative
  else if 400 < magnitude then infinity negative
  else if magnitude < -400 then zero negative
  else if 0 ≤ exponent then ofRational negative (mantissa * Nat.pow 10 exponent.toNat) 1
  else ofRational negative mantissa (Nat.pow 10 (-exponent).toNat)

/-- The number nearest to an integer. -/
def ofInt (n : Int) : Binary64 := ofRational (n < 0) n.natAbs 1

/-- A finite number as a sign and a fraction. -/
def toFraction (mantissa : Nat) (exponent : Int) : Nat × Nat :=
  if 0 ≤ exponent then (mantissa * Nat.pow 2 exponent.toNat, 1)
  else (mantissa, Nat.pow 2 (-exponent).toNat)

/-- The integer equal to the number, if there is one. -/
def toInt? : Binary64 → Option Int
  | finite negative mantissa exponent =>
    let (n, d) := toFraction mantissa exponent
    if n % d = 0 then some (if negative then -(n / d : Nat) else (n / d : Nat)) else none
  | _ => none

/-- The number with the opposite sign. -/
def neg : Binary64 → Binary64
  | finite negative m e => finite (!negative) m e
  | infinity negative => infinity (!negative)
  | nan => nan

/-- The rounded product of two finite numbers; other operands give what the format lays down. -/
def mul : Binary64 → Binary64 → Binary64
  | finite s1 m1 e1, finite s2 m2 e2 =>
    let (n1, d1) := toFraction m1 e1
    let (n2, d2) := toFraction m2 e2
    ofRational (s1 != s2) (n1 * n2) (d1 * d2)
  | infinity s1, finite s2 m _ | finite s2 m _, infinity s1 =>
    if m = 0 then nan else infinity (s1 != s2)
  | infinity s1, infinity s2 => infinity (s1 != s2)
  | _, _ => nan

/-- The rounded sum of two numbers. -/
def add : Binary64 → Binary64 → Binary64
  | finite s1 m1 e1, finite s2 m2 e2 =>
    let (n1, d1) := toFraction m1 e1
    let (n2, d2) := toFraction m2 e2
    let a : Int := if s1 then -(n1 * d2 : Nat) else (n1 * d2 : Nat)
    let b : Int := if s2 then -(n2 * d1 : Nat) else (n2 * d1 : Nat)
    if a + b = 0 then zero (s1 && s2) else ofRational (a + b < 0) (a + b).natAbs (d1 * d2)
  | infinity s, finite .. | finite .., infinity s => infinity s
  | infinity s1, infinity s2 => if s1 = s2 then infinity s1 else nan
  | _, _ => nan

/-- Two numbers are equal as values: zeros of both signs are, and a `nan` equals nothing. -/
def eqValue : Binary64 → Binary64 → Bool
  | nan, _ | _, nan => false
  | finite s1 m1 e1, finite s2 m2 e2 => m1 == m2 && ((m1 == 0) || (s1 == s2 && e1 == e2))
  | infinity s1, infinity s2 => s1 == s2
  | _, _ => false

end Binary64

end ProviderKit
