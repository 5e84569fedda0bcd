import ProviderKit.Number.Shortest

/-!
# Rounded decimals

A fraction is written with a given number of decimal places, with a given number of significant
digits and an exponent, or in whichever of the two ways is the plainer one. Of two decimals that
are equally near, the one with an even last digit is taken. The second part reads the number that a
text begins with.
-/

namespace ProviderKit.Binary64

/-- Digits with zeros in front, as many as are missing. -/
def padZeros (size : Nat) (digits : List Char) : List Char :=
  List.replicate (size - digits.length) '0' ++ digits

/-- A point before digits; `always` says that it stands there also before none. -/
def pointBefore (always : Bool) (digits : List Char) : List Char :=
  if digits.isEmpty && !always then [] else '.' :: digits

/-- The fraction `num / den` with a number of places behind the point. -/
def fixedText (always : Bool) (places num den : Nat) : List Char :=
  let rounded := roundHalfEven (num * Nat.pow 10 places) den
  let digits := padZeros (places + 1) (Nat.toDigits 10 rounded)
  let whole := digits.length - places
  digits.take whole ++ pointBefore always (digits.drop whole)

/-- The digits of the fraction `num / den`, one more than `places`, and the power of ten of the
first one. -/
def significant (places num den : Nat) : List Char × Int :=
  if num = 0 then (List.replicate (places + 1) '0', 0)
  else
    let lead := leadingPower num den
    let shift : Int := places - lead
    let (n, d) := if 0 ≤ shift then (num * Nat.pow 10 shift.toNat, den)
      else (num, den * Nat.pow 10 (-shift).toNat)
    let digits := Nat.toDigits 10 (roundHalfEven n d)
    if digits.length > places + 1 then (digits.take (places + 1), lead + 1) else (digits, lead)

/-- An exponent with a sign and at least two digits. -/
def exponentText (exponent : Int) : List Char :=
  (if exponent < 0 then '-' else '+') :: padZeros 2 (Nat.toDigits 10 exponent.natAbs)

/-- The fraction `num / den` with one digit before the point, a number of places behind it, and an
exponent. -/
def scientificText (always : Bool) (places num den : Nat) : List Char :=
  let (digits, lead) := significant places num den
  digits.take 1 ++ pointBefore always (digits.drop 1) ++ 'e' :: exponentText lead

/-- The text without zeros at the end of its places. -/
def withoutEndZeros (cs : List Char) : List Char :=
  if cs.contains '.' then ((cs.reverse.dropWhile (· = '0')).dropWhile (· = '.')).reverse else cs

/-- The fraction `num / den` with a number of significant digits, with an exponent if it is very
large or small. Zeros at the end are written only if `always` says so. -/
def generalText (always : Bool) (size num den : Nat) : List Char :=
  let size := max size 1
  let (digits, lead) := significant (size - 1) num den
  if -4 ≤ lead ∧ lead < size then
    let cs := fixedText always (size - 1 - lead).toNat num den
    if always then cs else withoutEndZeros cs
  else
    let mantissa := digits.take 1 ++ pointBefore always (digits.drop 1)
    (if always then mantissa else withoutEndZeros mantissa) ++ 'e' :: exponentText lead

/-- The text without a word in either case, if it begins with it. -/
def dropWord? (word : String) (t : Text) : Option Text :=
  if Text.lowerAscii (t.take word.length) = Text.ofString word then some (t.drop word.length) else none

/-- The exponent at the beginning of a text, and what follows it; without digits there is none. -/
def takeExponent (t : Text) : Int × Text :=
  let (negative, rest) : Bool × Text := match t.drop 1 with
    | .char '-' :: rest => (true, rest)
    | .char '+' :: rest => (false, rest)
    | rest => (false, rest)
  let (digits, after) := rest.span (·.satisfies Char.isDigit)
  match t with
  | .char 'e' :: _ | .char 'E' :: _ =>
    if digits.isEmpty then (0, t)
    else (if negative then -(Text.digitsValue digits : Int) else Text.digitsValue digits, after)
  | _ => (0, t)

/-- The magnitude at the beginning of a text, with a sign given before it, and what follows. -/
def takeMagnitude (negative : Bool) (t : Text) : Option (Binary64 × Text) :=
  match dropWord? "infinity" t, dropWord? "inf" t, dropWord? "nan" t with
  | some rest, _, _ | none, some rest, _ => some (.infinity negative, rest)
  | none, none, some rest => some (.nan, rest)
  | none, none, none =>
    let (whole, rest) := t.span (·.satisfies Char.isDigit)
    let (places, after) : Text × Text := match rest with
      | .char '.' :: more => more.span (·.satisfies Char.isDigit)
      | _ => ([], rest)
    if whole.isEmpty && places.isEmpty then none
    else
      let (exponent, after) := takeExponent after
      some (ofDecimal negative (Text.digitsValue (whole ++ places)) (exponent - places.length),
        after)

/-- The number at the beginning of a text, behind white space and a sign, and what follows it. -/
def takeNumber (t : Text) : Option (Binary64 × Text) :=
  match t.dropWhile fun c => c.satisfies fun c => c = ' ' || (9 ≤ c.toNat && c.toNat ≤ 13) with
  | .char '-' :: rest => takeMagnitude true rest
  | .char '+' :: rest => takeMagnitude false rest
  | rest => takeMagnitude false rest

/-- The number is finite, and so near to zero that it has fewer bits than others. -/
def isSubnormal : Binary64 → Bool
  | finite _ mantissa exponent => exponent = -1074 && mantissa < Nat.pow 2 52
  | infinity _ | nan => false

end ProviderKit.Binary64
