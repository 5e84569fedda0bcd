import ProviderKit.Text.Blank

/-!
# Written numbers

People write numbers with the digits of many scripts. A number word is first brought into a plain
form, with the ten ASCII digits and ASCII white space, in which white space at its ends says
nothing. In a whole number single underscores may separate digits.
-/

namespace ProviderKit

/-- The zeros among the decimal digits of Unicode 14.0. Nine more digits follow each, in order. -/
def decimalZeros : List Nat := [
  0x30, 0x660, 0x6F0, 0x7C0, 0x966, 0x9E6, 0xA66, 0xAE6, 0xB66, 0xBE6, 0xC66, 0xCE6, 0xD66, 0xDE6,
  0xE50, 0xED0, 0xF20, 0x1040, 0x1090, 0x17E0, 0x1810, 0x1946, 0x19D0, 0x1A80, 0x1A90, 0x1B50,
  0x1BB0, 0x1C40, 0x1C50, 0xA620, 0xA8D0, 0xA900, 0xA9D0, 0xA9F0, 0xAA50, 0xABF0, 0xFF10, 0x104A0,
  0x10D30, 0x11066, 0x110F0, 0x11136, 0x111D0, 0x112F0, 0x11450, 0x114D0, 0x11650, 0x116C0,
  0x11730, 0x118E0, 0x11950, 0x11C50, 0x11D50, 0x11DA0, 0x16A60, 0x16AC0, 0x16B50, 0x1D7CE,
  0x1D7D8, 0x1D7E2, 0x1D7EC, 0x1D7F6, 0x1E140, 0x1E2F0, 0x1E950, 0x1FBF0]

/-- The digits of Unicode 14.0 that stand in no decimal number, such as raised and circled ones. The
ranges are closed and in rising order. -/
def ornateDigitRanges : List (Nat × Nat) := [
  (0xB2, 0xB3), (0xB9, 0xB9), (0x1369, 0x1371), (0x19DA, 0x19DA), (0x2070, 0x2070),
  (0x2074, 0x2079), (0x2080, 0x2089), (0x2460, 0x2468), (0x2474, 0x247C), (0x2488, 0x2490),
  (0x24EA, 0x24EA), (0x24F5, 0x24FD), (0x24FF, 0x24FF), (0x2776, 0x277E), (0x2780, 0x2788),
  (0x278A, 0x2792), (0x10A40, 0x10A43), (0x10E60, 0x10E68), (0x11052, 0x1105A), (0x1F100, 0x1F10A)]

/-- The value of a decimal digit of any script. -/
def Char.decimalDigit? (c : Char) : Option Nat :=
  (decimalZeros.find? fun first => first ≤ c.toNat && c.toNat < first + 10).map (c.toNat - ·)

/-- A digit of any kind. -/
def Char.isAnyDigit (c : Char) : Bool :=
  (Char.decimalDigit? c).isSome ||
    ornateDigitRanges.any fun (first, last) => first ≤ c.toNat && c.toNat ≤ last

namespace Numeral

/-- The most digits that a decimal number may be written with. -/
def lengthLimit : Nat := 4300

/-- The ASCII form of a digit or of white space beyond ASCII; other characters stay. -/
def plainChar (c : Char) : Char :=
  if c.toNat < 0x80 then c
  else match Char.decimalDigit? c with
    | some d => Char.ofNat ('0'.toNat + d)
    | none => if Char.isBlank c then ' ' else c

/-- ASCII white space that may stand around a number. -/
def isSpace (c : Char) : Bool := c = ' ' || (0x09 ≤ c.toNat && c.toNat ≤ 0x0D)

/-- The plain form of a number word, without the white space around it. -/
def plain (cs : List Char) : List Char :=
  (((cs.map plainChar).dropWhile isSpace).reverse.dropWhile isSpace).reverse

/-- The sign of a number word, and the rest. -/
def splitSign : List Char → Bool × List Char
  | '-' :: cs => (true, cs)
  | '+' :: cs => (false, cs)
  | cs => (false, cs)

/-- The number that digits of a base stand for, with single underscores between them. `fresh` says
that no underscore may come now. -/
def digits? (base : Nat) : Bool → Nat → List Char → Option Nat
  | fresh, n, [] => if fresh then none else some n
  | fresh, n, '_' :: cs => if fresh then none else digits? base true n cs
  | _, n, c :: cs =>
    let value := c.toNat - '0'.toNat
    if c.isDigit && value < base then digits? base false (base * n + value) cs else none

/-- A whole number in a base of at most ten. -/
def int? (base : Nat) (cs : List Char) : Option Int :=
  let (negative, ds) := splitSign (plain cs)
  (digits? base true 0 ds).map fun n => if negative then -n else n

end Numeral

end ProviderKit
