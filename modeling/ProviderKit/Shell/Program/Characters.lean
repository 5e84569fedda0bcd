import ProviderKit.Shell.Program.Lines
import ProviderKit.Shell.Regular

/-!
# Replacing characters

A program that replaces the characters of its input one by one, or leaves some of them out. Its
operands are lists of characters, in which ranges, classes and repeated characters can be written
short.
-/

namespace ProviderKit.Shell.Program

/-- An item of a list of characters. -/
inductive Listed where
  | one (b : UInt8)
  | range (first last : UInt8)
  | class (property : Char → Bool)
  /-- A character a number of times, or as often as the list needs it. -/
  | repeated (b : UInt8) (count : Option Nat)

namespace Listed

/-- The character in front of a list, which may be written as an escape, and what follows it. -/
def takeByte : List Char → Option (UInt8 × List Char)
  | [] => none
  | '\\' :: c :: rest =>
    let isOctal (c : Char) : Bool := '0' ≤ c && c ≤ '7'
    if isOctal c then
      let digits := c :: (rest.take 2).takeWhile isOctal
      some (UInt8.ofNat (Arithmetic.digitsValue 8 (Text.ofChars digits)),
        rest.drop (digits.length - 1))
    else
      let code := match c with
        | 'a' => 7
        | 'b' => 8
        | 't' => 9
        | 'n' => 10
        | 'v' => 11
        | 'f' => 12
        | 'r' => 13
        | c => c.toNat
      some (UInt8.ofNat code, rest)
  | c :: rest => some (UInt8.ofNat c.toNat, rest)

/-- A repeated character behind an opening bracket, and what follows the closing one. -/
def takeRepeated (rest : List Char) : Option (Listed × List Char) := do
  let (b, rest) ← takeByte rest
  match rest with
  | '*' :: rest =>
    let digits := rest.takeWhile Char.isDigit
    match rest.drop digits.length with
    | ']' :: rest =>
      let base := if digits.head? = some '0' then 8 else 10
      let count := Arithmetic.digitsValue base (Text.ofChars digits)
      pure (.repeated b (if count = 0 then none else some count), rest)
    | _ => none
  | _ => none

/-- The items of a list of characters, or the ends of a range that runs backwards. -/
def ofChars : Nat → List Char → Except (UInt8 × UInt8) (List Listed)
  | 0, _ => .ok []
  | fuel + 1, cs =>
    let class? : Option ((Char → Bool) × Nat) := match cs with
      | '[' :: rest => takeClass (Text.ofChars rest)
      | _ => none
    let repeated? := match cs with
      | '[' :: rest => takeRepeated rest
      | _ => none
    match class?, repeated?, takeByte cs with
    | some (property, n), _, _ => return .class property :: (← ofChars fuel (cs.drop (n + 1)))
    | none, some (item, rest), _ => return item :: (← ofChars fuel rest)
    | none, none, none => .ok []
    | none, none, some (b, rest) =>
      match rest with
      | '-' :: more =>
        match takeByte more with
        | some (last, rest) =>
          if last < b then .error (b, last) else return .range b last :: (← ofChars fuel rest)
        | none => return .one b :: (← ofChars fuel rest)
      | _ => return .one b :: (← ofChars fuel rest)

/-- Every byte. -/
def allBytes : Bytes := (List.range 256).map UInt8.ofNat

/-- The bytes of an item, of which a repeated one comes a number of times. -/
def bytes (fill : Nat) : Listed → Bytes
  | one b => [b]
  | range first last => allBytes.filter fun b => first ≤ b && b ≤ last
  | «class» property => allBytes.filter fun b => property (Char.ofNat b.toNat)
  | repeated b count => List.replicate (count.getD fill) b

/-- The bytes of a list of which one item may be repeated to make it as long as is asked for. -/
def expand (length : Nat) (items : List Listed) : Bytes :=
  let least := (items.flatMap (bytes 0)).length
  items.flatMap (bytes (length - least))

end Listed

/-- Bytes in which those of a set that follow one another and are the same stand once. -/
def squeeze (isIn : UInt8 → Bool) : Bytes → Bytes
  | [] => []
  | b :: rest =>
    let rest := squeeze isIn rest
    if isIn b && rest.head? = some b then rest else b :: rest

/-- Replaces or leaves out characters. -/
def tr : Utility := fun arguments => do
  let g ← read "tr"
    { letters := "cCdst", strict := true
      names := [("complement", 'c'), ("delete", 'd'), ("squeeze-repeats", 's'),
        ("truncate-set1", 't')] } arguments
  let isComplement := g.has 'c' || g.has 'C'
  let listOf (t : Text) : Action (List Listed) := do
    let cs := textChars t
    match Listed.ofChars (cs.length + 1) cs with
    | .ok items => pure items
    | .error (b, last) =>
      stop 1 ("tr: range-endpoints of '" ++ Utf8.decodeLossless [b] ++ "-" ++
        Utf8.decodeLossless [last] ++ "' are in reverse collating sequence order")
  let complement (bytes : Bytes) : Bytes :=
    if isComplement then Listed.allBytes.filter fun b => !bytes.contains b else bytes
  let removes := g.has 'd'
  let squeezes := g.has 's'
  let missing (complaint : Text) (operand : Text) : Action Nat :=
    misuse "tr" {} ("missing operand after " ++ named operand ++ "\n" ++ complaint)
  match g.operands with
  | [] => misuse "tr" {} "missing operand"
  | [first] =>
    if !removes && !squeezes then missing "Two strings must be given when translating." first
    else if removes && squeezes then
      missing "Two strings must be given when both deleting and squeezing repeats." first
    else
      let set := complement (Listed.expand 0 (← listOf first))
      let input ← takeInput
      writeBytes (if removes then input.filter fun b => !set.contains b
        else squeeze set.contains input)
      pure 0
  | [first, second] =>
    if removes && !squeezes then
      return ← misuse "tr" {} ("extra operand " ++ named second ++
        "\nOnly one string may be given when deleting without squeezing repeats.")
    let domain := complement (Listed.expand 0 (← listOf first))
    let items ← listOf second
    let images := Listed.expand domain.length items
    let input ← takeInput
    if removes then
      writeBytes (squeeze images.contains (input.filter fun b => !domain.contains b))
      return 0
    if images.isEmpty && !domain.isEmpty then
      return ← stop 1 "tr: when not truncating set1, string2 must be non-empty"
    let last := (images.getLast?).getD 0
    let padded := images ++ List.replicate (domain.length - images.length) last
    let pairs := (domain.zip (if g.has 't' then images else padded)).reverse
    let table := Listed.allBytes.map fun b => (pairs.lookup b).getD b
    let output := input.map fun b => (table[b.toNat]?).getD b
    writeBytes (if squeezes then squeeze images.contains output else output)
    pure 0
  | _ :: _ :: extra :: _ => misuse "tr" {} ("extra operand " ++ named extra)

end ProviderKit.Shell.Program
