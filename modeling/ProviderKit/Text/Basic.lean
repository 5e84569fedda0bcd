/-!
# Text as code points

A text is a list of code points. Escapes in JSON and YAML can name a surrogate on its own, so a
code point is a character or a lone surrogate; everything that is read, checked, printed or used
as a name in this library is a text in this sense. A string literal stands for its characters
through a coercion.
-/

namespace ProviderKit

/-- A code point: a character, or one of the 2048 surrogates standing alone. -/
inductive CodePoint where
  /-- A Unicode scalar value. -/
  | char (c : Char)
  /-- The surrogate `0xD800 + offset`. -/
  | surrogate (offset : Fin 2048)
deriving DecidableEq, Inhabited

namespace CodePoint

/-- The number of a code point. -/
def toNat : CodePoint → Nat
  | char c => c.toNat
  | surrogate s => 0xD800 + s.val

/-- The surrogate at an offset below 2048. -/
def surrogateAt (offset : Nat) : CodePoint := surrogate (Fin.ofNat 2048 offset)

/-- The code point with a given number, if there is one. -/
def ofNat? (n : Nat) : Option CodePoint :=
  if 0xD800 ≤ n ∧ n < 0xE000 then some (surrogateAt (n - 0xD800))
  else if n < 0x110000 then some (char (Char.ofNat n))
  else none

/-- A property of characters, false of lone surrogates. -/
def satisfies (p : Char → Bool) : CodePoint → Bool
  | char c => p c
  | surrogate _ => false

/-- A surrogate on its own cannot be written as UTF-8. -/
def isSurrogate : CodePoint → Bool
  | char _ => false
  | surrogate _ => true

end CodePoint

/-- A text is a sequence of code points. -/
abbrev Text := List CodePoint

/-- Raw contents of a file or of a stream. -/
abbrev Bytes := List UInt8

namespace Text

/-- The text of a sequence of characters. -/
def ofChars (cs : List Char) : Text := cs.map .char

/-- The text of a string. -/
def ofString (s : String) : Text := ofChars s.toList

instance : Coe String Text := ⟨ofString⟩

/-- The decimal digits of a natural number. -/
def ofNat (n : Nat) : Text := ofChars (Nat.toDigits 10 n)

/-- The decimal form of an integer, with a minus sign in front of a negative one. -/
def ofInt : Int → Text
  | .ofNat n => ofNat n
  | .negSucc n => .char '-' :: ofNat (n + 1)

/-- The characters of a text, if it holds no lone surrogate. -/
def toChars? : Text → Option (List Char)
  | [] => some []
  | .char c :: t => (toChars? t).map (c :: ·)
  | .surrogate _ :: _ => none

/-- The text as a string; a lone surrogate becomes the replacement character. -/
def toString (t : Text) : String :=
  String.ofList (t.map fun
    | .char c => c
    | .surrogate _ => '\uFFFD')

/-- No code point of the text is a lone surrogate. -/
def isWellFormed (t : Text) : Bool := t.all fun c => !c.isSurrogate

/-- The text without a given beginning, if it has that beginning. -/
def dropPrefix? : Text → Text → Option Text
  | t, [] => some t
  | [], _ :: _ => none
  | c :: t, p :: ps => if c = p then dropPrefix? t ps else none

/-- The text starts with the given beginning. -/
def hasPrefix (t p : Text) : Bool := (dropPrefix? t p).isSome

/-- The text ends with the given ending. -/
def hasSuffix (t s : Text) : Bool := hasPrefix t.reverse s.reverse

/-- The code points before the first separator, and those after it if there is one. -/
def cut (sep : CodePoint) : Text → Text × Option Text
  | [] => ([], none)
  | c :: t => if c = sep then ([], some t) else
      let (before, after) := cut sep t
      (c :: before, after)

/-- The pieces between separators; there is always one more piece than separators. -/
def split (sep : CodePoint) : Text → List Text
  | [] => [[]]
  | c :: t =>
    if c = sep then [] :: split sep t
    else match split sep t with
      | [] => [[c]]
      | piece :: pieces => (c :: piece) :: pieces

/-- The pieces with a separator between neighbours. -/
def join (sep : Text) : List Text → Text
  | [] => []
  | [t] => t
  | t :: ts => t ++ sep ++ join sep ts

/-- The text with its ASCII capitals made small. -/
def lowerAscii (t : Text) : Text :=
  t.map fun
    | .char c => .char c.toLower
    | .surrogate s => .surrogate s

/-- Code point order: the first difference decides, and a beginning comes before the whole. -/
def le : Text → Text → Bool
  | [], _ => true
  | _ :: _, [] => false
  | a :: s, b :: t => a.toNat < b.toNat || (a.toNat == b.toNat && le s t)

/-- The value of a sequence of ASCII digits, read in base ten; other code points count as zero. -/
def digitsValue (t : Text) : Nat :=
  t.foldl (fun n c => 10 * n + (c.toNat - '0'.toNat)) 0

end Text

end ProviderKit
