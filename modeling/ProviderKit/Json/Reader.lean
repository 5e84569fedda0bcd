import ProviderKit.Interpreter
import ProviderKit.Json.Basic

/-!
# Reading JSON

Reading fails at the first code point that no document can have there. A failure says what was
expected and how much of the text was left at that place; `Fault.message` turns that into a line,
a column and an offset. Besides the standard, the words `NaN`, `Infinity` and `-Infinity` are
numbers, and an escape may name a surrogate on its own. A number is the longest one that starts
at its place. Arrays and objects nest only so deep, and those three words go one level deeper than
what they stand in.
-/

namespace ProviderKit.Json

/-- What is wrong at a place of a text. -/
inductive Cause where
  | byteOrderMark
  | expectingValue
  | expectingKey
  | expectingColon
  | expectingComma
  | unterminatedString
  | controlCharacter
  | invalidEscape
  | invalidUnicodeEscape
  | extraData
  /-- An integer literal with more digits than are accepted. -/
  | tooManyDigits (count : Nat)
  /-- A value that too many others stand around. -/
  | tooDeep
deriving DecidableEq

/-- A cause, and the number of code points from its place to the end of the text. -/
structure Failure where
  cause : Cause
  remaining : Nat
deriving DecidableEq

/-- The most digits that an integer literal may have. -/
def digitLimit : Nat := 4300

/-- Fails at the place where `rest` begins. -/
def failAt {α : Type} (cause : Cause) (rest : Text) : Except Failure α :=
  .error ⟨cause, rest.length⟩

/-- The four characters that may stand between tokens. -/
def isSpace (c : CodePoint) : Bool :=
  c = .char ' ' || c = .char '\t' || c = .char '\n' || c = .char '\r'

/-- The text without the space at its beginning. -/
def skipSpace (t : Text) : Text := t.dropWhile isSpace

/-- An ASCII digit. -/
def isDigit (c : CodePoint) : Bool := c.satisfies Char.isDigit

/-- The value of a hexadecimal digit of either case. -/
def hexValue? : CodePoint → Option Nat
  | .char c =>
    if c.isDigit then some (c.toNat - '0'.toNat)
    else if 'a' ≤ c && c ≤ 'f' then some (c.toNat - 'a'.toNat + 10)
    else if 'A' ≤ c && c ≤ 'F' then some (c.toNat - 'A'.toNat + 10)
    else none
  | .surrogate _ => none

/-- The value of four hexadecimal digits. -/
def hexValue4? (a b c d : CodePoint) : Option Nat := do
  let a ← hexValue? a
  let b ← hexValue? b
  let c ← hexValue? c
  let d ← hexValue? d
  some (((a * 16 + b) * 16 + c) * 16 + d)

/-- The character that a one-letter escape names. -/
def simpleEscape? : CodePoint → Option Char
  | .char '"' => some '"'
  | .char '\\' => some '\\'
  | .char '/' => some '/'
  | .char 'b' => some '\x08'
  | .char 'f' => some '\x0c'
  | .char 'n' => some '\n'
  | .char 'r' => some '\r'
  | .char 't' => some '\t'
  | _ => none

/-- The code point of a UTF-16 unit on its own. -/
def unitCodePoint (unit : Nat) : CodePoint := (CodePoint.ofNat? unit).getD default

/-- The character of a pair of UTF-16 surrogates. -/
def joinSurrogates (high low : Nat) : CodePoint :=
  .char (Char.ofNat (0x10000 + (high - 0xD800) * 0x400 + (low - 0xDC00)))

/-- Reads a string after its opening quote, up to and including the closing one; `opening` is how
much text was left at the opening quote. An escape of a high surrogate and an escape of a low one
after it are one character. -/
def readString (opening : Nat) : Text → Except Failure (Text × Text)
  | [] => .error ⟨.unterminatedString, opening⟩
  | .char '"' :: rest => .ok ([], rest)
  | .char '\\' :: rest =>
    match rest with
    | [] => .error ⟨.unterminatedString, opening⟩
    | .char 'u' :: digits =>
      match digits with
      | a :: b :: c :: d :: tail =>
        if tail.isEmpty then failAt .invalidUnicodeEscape (.char 'u' :: digits)
        else match hexValue4? a b c d with
          | none => failAt .invalidUnicodeEscape (.char 'u' :: digits)
          | some unit =>
            let alone : Except Failure (Text × Text) := do
              let (body, rest) ← readString opening tail
              pure (unitCodePoint unit :: body, rest)
            if 0xD800 ≤ unit && unit < 0xDC00 then
              match tail with
              | .char '\\' :: .char 'u' :: a' :: b' :: c' :: d' :: tail' =>
                match hexValue4? a' b' c' d' with
                | some low =>
                  if 0xDC00 ≤ low && low < 0xE000 && !tail'.isEmpty then do
                    let (body, rest) ← readString opening tail'
                    pure (joinSurrogates unit low :: body, rest)
                  else alone
                | none => alone
              | _ => alone
            else alone
      | _ => failAt .invalidUnicodeEscape (.char 'u' :: digits)
    | c :: tail =>
      match simpleEscape? c with
      | none => failAt .invalidEscape (.char '\\' :: rest)
      | some e => do
        let (body, rest) ← readString opening tail
        pure (.char e :: body, rest)
  | c :: rest =>
    if c.toNat < 0x20 then failAt .controlCharacter (c :: rest)
    else do
      let (body, rest) ← readString opening rest
      pure (c :: body, rest)

/-- The longest run of digits at the beginning, and what follows it. -/
def spanDigits (t : Text) : Text × Text := (t.takeWhile isDigit, t.dropWhile isDigit)

/-- The fraction part at the beginning, without its point: empty unless a point is followed by a
digit. -/
def readFraction : Text → Text × Text
  | .char '.' :: rest =>
    let (digits, tail) := spanDigits rest
    if digits.isEmpty then ([], .char '.' :: rest) else (digits, tail)
  | t => ([], t)

/-- The exponent part at the beginning, if there is one with a digit. -/
def readExponent : Text → Option Int × Text
  | t@(.char e :: rest) =>
    if e = 'e' ∨ e = 'E' then
      let (negative, unsigned) := match rest with
        | .char '-' :: r => (true, r)
        | .char '+' :: r => (false, r)
        | r => (false, r)
      let (digits, tail) := spanDigits unsigned
      if digits.isEmpty then (none, t)
      else
        let n : Int := Text.digitsValue digits
        (some (if negative then -n else n), tail)
    else (none, t)
  | t => (none, t)

/-- The integer part at the beginning: a zero, or digits that start with another one. -/
def readInteger : Text → Text × Text
  | .char '0' :: rest => ([.char '0'], rest)
  | t => spanDigits t

/-- Reads a number without its sign. `start` is the text from the sign on. -/
def readNumber (start : Text) (negative : Bool) (t : Text) : Except Failure (Json × Text) :=
  let (digits, rest) := readInteger t
  if digits.isEmpty then failAt .expectingValue start
  else
    let (fraction, rest) := readFraction rest
    let (exponent, rest) := readExponent rest
    if fraction.isEmpty && exponent.isNone then
      if digitLimit < digits.length then failAt (.tooManyDigits digits.length) start
      else
        let n : Int := Text.digitsValue digits
        .ok (.int (if negative then -n else n), rest)
    else
      let mantissa := Text.digitsValue (digits ++ fraction)
      let power := exponent.getD 0 - fraction.length
      .ok (.float (Binary64.ofDecimal negative mantissa power), rest)

/-- The words with a value of their own. -/
def words : List (Text × Json) :=
  [("null", .null), ("true", .bool true), ("false", .bool false), ("NaN", .float .nan),
   ("Infinity", .float (.infinity false)), ("-Infinity", .float (.infinity true))]

/-- The value of the word that a text begins with, and what follows it. -/
def readWord? (t : Text) : Option (Json × Text) :=
  words.findSome? fun (word, value) => (t.dropPrefix? word).map fun rest => (value, rest)

/-- Reads a word or a number, where `room` is how many levels deeper reading may go. A word for a
number needs one of them. -/
def readScalar (room : Nat) (t : Text) : Except Failure (Json × Text) :=
  match readWord? t with
  | some (.float x, rest) => if room = 0 then failAt .tooDeep t else .ok (.float x, rest)
  | some found => .ok found
  | none =>
    match t with
    | .char '-' :: rest => readNumber t true rest
    | _ => readNumber t false t

mutual

/-- Reads one value, where `room` is how many levels deeper reading may go; each level of nesting
and each item uses up one unit of `fuel`. -/
def readValue : Nat → Nat → Text → Except Failure (Json × Text)
  | 0, _, t => failAt .expectingValue t
  | fuel + 1, room, t =>
    match t with
    | .char '"' :: rest => do
      let (body, rest) ← readString t.length rest
      pure (.text body, rest)
    | .char '{' :: rest =>
      match room with
      | 0 => failAt .tooDeep t
      | room + 1 =>
        match skipSpace rest with
        | .char '}' :: rest => .ok (.object [], rest)
        | rest => do
          let (members, rest) ← readMembers fuel room rest
          pure (.object (ofMembers members), rest)
    | .char '[' :: rest =>
      match room with
      | 0 => failAt .tooDeep t
      | room + 1 =>
        match skipSpace rest with
        | .char ']' :: rest => .ok (.array [], rest)
        | rest => do
          let (items, rest) ← readItems fuel room rest
          pure (.array items, rest)
    | _ => readScalar room t

/-- Reads the items of an array up to and including the closing bracket. -/
def readItems : Nat → Nat → Text → Except Failure (List Json × Text)
  | 0, _, t => failAt .expectingValue t
  | fuel + 1, room, t => do
    let (item, rest) ← readValue fuel room t
    match skipSpace rest with
    | .char ']' :: rest => pure ([item], rest)
    | .char ',' :: rest =>
      let (items, rest) ← readItems fuel room (skipSpace rest)
      pure (item :: items, rest)
    | rest => failAt .expectingComma rest

/-- Reads the members of an object up to and including the closing brace. -/
def readMembers : Nat → Nat → Text → Except Failure (List (Text × Json) × Text)
  | 0, _, t => failAt .expectingKey t
  | fuel + 1, room, t =>
    match t with
    | .char '"' :: rest => do
      let (key, rest) ← readString t.length rest
      match skipSpace rest with
      | .char ':' :: rest =>
        let (value, rest) ← readValue fuel room (skipSpace rest)
        match skipSpace rest with
        | .char '}' :: rest => pure ([(key, value)], rest)
        | .char ',' :: rest =>
          let (members, rest) ← readMembers fuel room (skipSpace rest)
          pure ((key, value) :: members, rest)
        | rest => failAt .expectingComma rest
      | rest => failAt .expectingColon rest
    | _ => failAt .expectingKey t

end

/-- Reads a whole document that has at most the given number of levels. Every unit of fuel goes with
a code point read, so the text's length is enough. -/
def readWithin (room : Nat) (t : Text) : Except Failure Json :=
  match t with
  | .char '\uFEFF' :: _ => failAt .byteOrderMark t
  | _ => do
    let (value, rest) ← readValue (2 * t.length + 2) room (skipSpace t)
    match skipSpace rest with
    | [] => pure value
    | rest => failAt .extraData rest

/-- Reads a whole document. -/
def read [Interpreter] (t : Text) : Except Failure Json := readWithin Interpreter.reading t

/-- The wording of each cause. -/
def Cause.message : Cause → Text
  | byteOrderMark => "Unexpected UTF-8 BOM (decode using utf-8-sig)"
  | expectingValue => "Expecting value"
  | expectingKey => "Expecting property name enclosed in double quotes"
  | expectingColon => "Expecting ':' delimiter"
  | expectingComma => "Expecting ',' delimiter"
  | unterminatedString => "Unterminated string starting at"
  | controlCharacter => "Invalid control character at"
  | invalidEscape => "Invalid \\escape"
  | invalidUnicodeEscape => "Invalid \\uXXXX escape"
  | extraData => "Extra data"
  | tooManyDigits count => "Exceeds the limit (" ++ Text.ofNat digitLimit ++
      " digits) for integer string conversion: value has " ++ Text.ofNat count ++
      " digits; use sys.set_int_max_str_digits() to increase the limit"
  | tooDeep => "maximum recursion depth exceeded while decoding a JSON document"

/-- A failure of reading is one of syntax, an integer beyond the limit, or too many levels. -/
def Failure.isSyntax (f : Failure) : Bool :=
  match f.cause with
  | .tooManyDigits _ | .tooDeep => false
  | _ => true

/-- The message of a failure in the given text. Lines and columns count from one, the offset from
zero. What is beyond a limit has no place. -/
def Failure.message (f : Failure) (t : Text) : Text :=
  let before := t.take (t.length - f.remaining)
  let line := before.count (.char '\n') + 1
  let column := (before.reverse.takeWhile (· != .char '\n')).length + 1
  if f.isSyntax then
    f.cause.message ++ ": line " ++ Text.ofNat line ++ " column " ++ Text.ofNat column ++
      " (char " ++ Text.ofNat before.length ++ ")"
  else f.cause.message

end ProviderKit.Json
