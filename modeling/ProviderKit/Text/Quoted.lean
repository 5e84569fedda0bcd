import ProviderKit.Text.Printable

/-!
# Quoted text

The form in which messages quote a text or a byte string: between single quotes, or between double
quotes if the text holds single quotes and no double ones, with a backslash before the quote and
before a backslash, and with everything that is not printable written by its number.
-/

namespace ProviderKit

/-- The last `width` hexadecimal digits of a number, in lower case. -/
def hexDigits : Nat → Nat → List Char
  | 0, _ => []
  | width + 1, n => hexDigits width (n / 16) ++ [Nat.digitChar (n % 16)]

namespace Text

/-- The quote that encloses a text. -/
def quoteMark (t : Text) : Char :=
  if t.contains (.char '\x27') && !t.contains (.char '"') then '"' else '\x27'

/-- A code point written by its number, in the shortest of the three widths. -/
def escapeNumber (n : Nat) : Text :=
  .ofChars (if n < 0x100 then '\\' :: 'x' :: hexDigits 2 n
    else if n < 0x10000 then '\\' :: 'u' :: hexDigits 4 n
    else '\\' :: 'U' :: hexDigits 8 n)

/-- The text with each lone surrogate written by its number, so that the rest can be encoded. -/
def escapeSurrogates (t : Text) : Text :=
  t.flatMap fun c => if c.isSurrogate then escapeNumber c.toNat else [c]

/-- One code point inside the given quotes. -/
def quoteCodePoint (mark : Char) : CodePoint → Text
  | .char '\n' => "\\n"
  | .char '\r' => "\\r"
  | .char '\t' => "\\t"
  | .char '\\' => "\\\\"
  | .char c =>
    if c = mark then [.char '\\', .char c]
    else if Char.isPrintable c then [.char c]
    else escapeNumber c.toNat
  | .surrogate s => escapeNumber (0xD800 + s.val)

/-- The quoted form of a text. -/
def quoted (t : Text) : Text :=
  let mark := quoteMark t
  .char mark :: t.flatMap (quoteCodePoint mark) ++ [.char mark]

end Text

/-- The quoted form of a byte string: a `b`, and each byte as the character of its number if that
is an ASCII character. -/
def Bytes.quoted (bytes : Bytes) : Text :=
  let t : Text := bytes.map fun b => .char (Char.ofNat b.toNat)
  let mark := Text.quoteMark t
  let body := t.flatMap fun c =>
    if c.toNat < 0x80 then Text.quoteCodePoint mark c else Text.escapeNumber c.toNat
  .char 'b' :: .char mark :: body ++ [.char mark]

end ProviderKit
