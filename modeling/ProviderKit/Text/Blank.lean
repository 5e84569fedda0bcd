import ProviderKit.Text.Basic

/-!
# Blank characters

White space in the sense of Unicode: the characters that trimming removes and that separate
words. A text is blank when it has no other characters.
-/

namespace ProviderKit

/-- The white space characters of Unicode, and the four information separators. -/
def Char.isBlank (c : Char) : Bool :=
  let n := c.toNat
  (0x09 ≤ n && n ≤ 0x0D) || (0x1C ≤ n && n ≤ 0x20) || n == 0x85 || n == 0xA0 || n == 0x1680 ||
    (0x2000 ≤ n && n ≤ 0x200A) || n == 0x2028 || n == 0x2029 || n == 0x202F || n == 0x205F ||
    n == 0x3000

/-- A code point that trimming removes. -/
def CodePoint.isBlank (c : CodePoint) : Bool := c.satisfies Char.isBlank

namespace Text

/-- A text of white space only. -/
def isBlank (t : Text) : Bool := t.all CodePoint.isBlank

/-- The text without the white space at its end. -/
def trimEnd (t : Text) : Text := (t.reverse.dropWhile CodePoint.isBlank).reverse

/-- The text without the white space at its beginning. -/
def trimStart (t : Text) : Text := t.dropWhile CodePoint.isBlank

/-- The text without the white space at its two ends. -/
def trim (t : Text) : Text := trimEnd (trimStart t)

end Text

end ProviderKit
