import ProviderKit.Text.Basic

/-!
# A place in a YAML text

The characters that matter to the layout of a YAML text, and a cursor that knows its line and
column while it moves. Lines end at `\n`, `\r`, `\r\n`, and the three line separators of Unicode.
-/

namespace ProviderKit.Yaml

/-- Why a text is no YAML document of this library's schema. -/
inductive Fault where
  /-- The text breaks the rules of the markup, or holds a node that has no value. -/
  | malformed
  /-- A number, date or code point out of range. -/
  | badNumber
  /-- A code point too large for a machine word. -/
  | overflow
  /-- A tag asks for a truth value and the scalar is no word for one. -/
  | badTruthValue
  /-- A tag asks for a number and the scalar is empty. -/
  | emptyNumber
  /-- A tag asks for a timestamp and the scalar has not the form of one. -/
  | badTimestamp
  /-- A collection that too many others stand around. -/
  | tooDeep
deriving DecidableEq

/-- A character that ends a line. -/
def isBreak (c : Char) : Bool :=
  c = '\n' || c = '\r' || c = '\x85' || c = '\u2028' || c = '\u2029'

/-- A character that may not stand inside a word. -/
def isBlank (c : Char) : Bool := c = ' ' || c = '\t' || isBreak c

/-- A character that a document may hold. -/
def isAllowed (c : Char) : Bool :=
  let n := c.toNat
  c = '\t' || c = '\n' || c = '\r' || (0x20 ≤ n && n ≤ 0x7E) || n == 0x85 ||
    (0xA0 ≤ n && n ≤ 0xD7FF) || (0xE000 ≤ n && n ≤ 0xFFFD) || 0x10000 ≤ n

/-- A letter, a digit, `-` or `_`: the characters of anchors, handles and directive names. -/
def isWord (c : Char) : Bool := c.isAlphanum || c = '-' || c = '_'

/-- A hexadecimal digit of either case. -/
def isHex (c : Char) : Bool := c.isDigit || ('a' ≤ c && c ≤ 'f') || ('A' ≤ c && c ≤ 'F')

/-- The value of hexadecimal digits. -/
def hexValue (cs : List Char) : Nat :=
  cs.foldl (fun n c =>
    n * 16 + (if c.isDigit then c.toNat - '0'.toNat
      else if 'a' ≤ c then c.toNat - 'a'.toNat + 10 else c.toNat - 'A'.toNat + 10)) 0

/-- The end of the text or a character that `p` holds of. -/
def endOr (p : Char → Bool) : Option Char → Bool
  | none => true
  | some c => p c

/-- A place in a text: what follows it, how many characters came before it, and its line and
column. -/
structure Cursor where
  rest : List Char
  index : Nat
  line : Nat
  column : Nat

namespace Cursor

/-- The beginning of a text. -/
def start (text : List Char) : Cursor := ⟨text, 0, 0, 0⟩

/-- The next character. -/
def peek (c : Cursor) : Option Char := c.rest.head?

/-- The character `k` places on. -/
def peekAt (c : Cursor) (k : Nat) : Option Char := c.rest[k]?

/-- One character on. A byte order mark has no width. -/
def next (c : Cursor) : Cursor :=
  match c.rest with
  | [] => c
  | ch :: rest =>
    if isBreak ch && !(ch = '\r' && rest.head? = some '\n') then ⟨rest, c.index + 1, c.line + 1, 0⟩
    else if ch = '\uFEFF' then ⟨rest, c.index + 1, c.line, c.column⟩
    else ⟨rest, c.index + 1, c.line, c.column + 1⟩

/-- A number of characters on. -/
def advance (c : Cursor) : Nat → Cursor
  | 0 => c
  | n + 1 => c.next.advance n

/-- The characters up to the first one that `p` does not hold of, and the place of that one. -/
def takeWhile (c : Cursor) (p : Char → Bool) : List Char × Cursor :=
  let taken := c.rest.takeWhile p
  (taken, c.advance taken.length)

/-- The place of the first character that `p` does not hold of. -/
def skipWhile (c : Cursor) (p : Char → Bool) : Cursor := (c.takeWhile p).2

/-- The place of the next line end, from the beginning of a comment on. -/
def skipComment (c : Cursor) : Cursor :=
  if c.peek = some '#' then c.skipWhile (fun ch => !isBreak ch) else c

/-- The line end at this place, as the character it stands for, and what follows it. -/
def lineBreak (c : Cursor) : Option (Char × Cursor) :=
  match c.rest with
  | '\r' :: '\n' :: _ => some ('\n', c.advance 2)
  | ch :: _ =>
    if ch = '\r' || ch = '\n' || ch = '\x85' then some ('\n', c.next)
    else if ch = '\u2028' || ch = '\u2029' then some (ch, c.next)
    else none
  | [] => none

/-- The rest starts with three of the given mark, and a word ends there. -/
def isDocumentMark (c : Cursor) (mark : Char) : Bool :=
  match c.rest with
  | a :: b :: d :: rest => a = mark && b = mark && d = mark && endOr isBlank rest.head?
  | _ => false

/-- One of the two marks between documents stands here. -/
def isSeparator (c : Cursor) : Bool := c.isDocumentMark '-' || c.isDocumentMark '.'

end Cursor

end ProviderKit.Yaml
