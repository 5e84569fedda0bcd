import ProviderKit.Text.Basic
import ProviderKit.Number.Binary64

/-!
# Shortest decimals

A number is written with the fewest decimal digits that read back as the same number, and among
those with the digits nearest to it. All comparisons are between exact fractions.
-/

namespace ProviderKit.Binary64

/-- The sign of a fraction minus a decimal `digits · 10^exponent`, as an ordering. -/
def compareDecimal (num den digits : Nat) (exponent : Int) : Ordering :=
  if 0 ≤ exponent then compare num (digits * Nat.pow 10 exponent.toNat * den)
  else compare (num * Nat.pow 10 (-exponent).toNat) (digits * den)

/-- The decimal reads back as `mantissa · 2^exponent`: it lies between the points halfway to the
two neighbours, ends included when the mantissa is even. -/
def readsBack (mantissa : Nat) (exponent : Int) (digits : Nat) (power : Int) : Bool :=
  -- Below a power of two the grid is twice as fine, except at the bottom of the range.
  let fineBelow := decide (mantissa = Nat.pow 2 52 ∧ -1074 < exponent)
  let (lowNum, lowDen) :=
    if fineBelow then toFraction (4 * mantissa - 1) (exponent - 2)
    else toFraction (2 * mantissa - 1) (exponent - 1)
  let (highNum, highDen) := toFraction (2 * mantissa + 1) (exponent - 1)
  let low := compareDecimal lowNum lowDen digits power
  let high := compareDecimal highNum highDen digits power
  let even := mantissa % 2 == 0
  (low == .lt || (low == .eq && even)) && (high == .gt || (high == .eq && even))

/-- The position of the first significant digit of `num / den`: the largest `p` with
`10^p ≤ num / den`. -/
def leadingPower (num den : Nat) : Int :=
  if den ≤ num then ((Nat.toDigits 10 (num / den)).length : Int) - 1
  else
    Int.negOfNat (((List.range 400).find? fun k => den ≤ num * Nat.pow 10 k).getD 400)

/-- The nearest decimal on the grid of `10^power` that reads back, if one of the two neighbours on
the grid does; a tie goes to the even digit. -/
def decimalAt? (mantissa : Nat) (exponent : Int) (power : Int) : Option (Nat × Int) :=
  let (num, den) := toFraction mantissa exponent
  let (n, d) :=
    if 0 ≤ power then (num, den * Nat.pow 10 power.toNat)
    else (num * Nat.pow 10 (-power).toNat, den)
  let low := n / d
  let lowHits := readsBack mantissa exponent low power
  let highHits := readsBack mantissa exponent (low + 1) power
  let rest := 2 * (n % d)
  if lowHits && highHits then
    if rest < d ∨ (rest = d ∧ low % 2 = 0) then some (low, power) else some (low + 1, power)
  else if lowHits then some (low, power)
  else if highHits then some (low + 1, power)
  else none

/-- The shortest decimal of a positive number: its digits and the power of ten of the last one.
Seventeen digits always read back. -/
def shortest (mantissa : Nat) (exponent : Int) : Nat × Int :=
  let (num, den) := toFraction mantissa exponent
  let lead := leadingPower num den
  ((List.range 17).findSome? fun k => decimalAt? mantissa exponent (lead - (k : Nat))).getD (0, 0)

/-- The digits without their final zeros, with the power of ten of the last one kept right. -/
def dropZeros : List Char → List Char
  | ds => (ds.reverse.dropWhile (· == '0')).reverse

/-- The text of `digits · 10^power`: positional from `0.0001` up to sixteen digits before the
point, and always with a point; otherwise with an exponent of a sign and at least two digits. -/
def decimalText (digits : Nat) (power : Int) : List Char :=
  let all := Nat.toDigits 10 digits
  let lead := power + all.length - 1
  let ds := dropZeros all
  if -4 ≤ lead ∧ lead < 16 then
    if lead < 0 then
      ['0', '.'] ++ List.replicate (-lead - 1).toNat '0' ++ ds
    else
      let whole := lead.toNat + 1
      let front := ds.take whole
      let back := ds.drop whole
      front ++ List.replicate (whole - front.length) '0' ++ ['.'] ++
        (if back.isEmpty then ['0'] else back)
  else
    let exponent := Nat.toDigits 10 lead.natAbs
    let exponent := if exponent.length < 2 then '0' :: exponent else exponent
    let (front, back) := (ds.take 1, ds.drop 1)
    front ++ (if back.isEmpty then [] else '.' :: back) ++ ['e', if lead < 0 then '-' else '+'] ++
      exponent

/-- The text of the magnitude of a finite number. -/
def magnitudeText (mantissa : Nat) (exponent : Int) : List Char :=
  if mantissa = 0 then ['0', '.', '0']
  else
    let (digits, power) := shortest mantissa exponent
    decimalText digits power

/-- The text of a number, with given words for infinity and for not a number. -/
def text (infinityWord nanWord : Text) : Binary64 → Text
  | finite negative m e =>
    (if negative then [.char '-'] else []) ++ Text.ofChars (magnitudeText m e)
  | infinity negative => (if negative then [.char '-'] else []) ++ infinityWord
  | nan => nanWord

end ProviderKit.Binary64
