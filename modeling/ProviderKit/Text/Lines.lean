import ProviderKit.Text.Basic

/-!
# Lines of a text

Two ways to see line ends. A file read as text has every `\r\n` and lone `\r` turned into `\n`. A
text cut into lines ends a line at any of the eleven line boundaries of Unicode, and a boundary at
the very end starts no further line.
-/

namespace ProviderKit

/-- The characters that end a line; `\r\n` counts as one end. -/
def Char.isLineEnd (c : Char) : Bool :=
  let n := c.toNat
  (0x0A ≤ n && n ≤ 0x0D) || (0x1C ≤ n && n ≤ 0x1E) || n == 0x85 || n == 0x2028 || n == 0x2029

namespace Text

/-- Every `\r\n` and every other `\r` becomes `\n`. -/
def normalizeNewlines : Text → Text
  | [] => []
  | .char '\r' :: .char '\n' :: t => .char '\n' :: normalizeNewlines t
  | .char '\r' :: t => .char '\n' :: normalizeNewlines t
  | c :: t => c :: normalizeNewlines t

/-- The lines of a text whose current line already holds `line`, in reverse. -/
def linesFrom (line : Text) : Text → List Text
  | [] => if line.isEmpty then [] else [line.reverse]
  | .char '\r' :: .char '\n' :: t => line.reverse :: linesFrom [] t
  | c :: t =>
    if c.satisfies Char.isLineEnd then line.reverse :: linesFrom [] t
    else linesFrom (c :: line) t

/-- The lines of a text, without their ends. -/
def lines (t : Text) : List Text := linesFrom [] t

end Text

end ProviderKit
