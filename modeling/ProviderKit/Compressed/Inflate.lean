/-!
# Expanding a deflated stream

A deflated stream is a row of blocks. A stored block holds bytes as they are. In the others words
of a Huffman code stand for bytes, for the end of the block, or for a stretch of bytes that came
before, given by its length and its distance. What was expanded before a fault is kept.

A code gives symbols words of bits, none of which begins another. In a canonical code the lengths
of the words say everything: words of one length go to the symbols in their order, and each word
that is not given away begins the longer ones. A code is kept as its levels, the symbols with words
of one bit, of two bits, and so on.
-/

namespace ProviderKit.Compressed

/-! ## Canonical Huffman codes -/

/-- Bits in the order in which they are read. -/
abbrev Bits := List Bool

/-- Why expanding stops early. -/
inductive Stop where
  /-- The bits end before what they stand for does. -/
  | cut
  /-- The bits stand for nothing. -/
  | corrupt
deriving DecidableEq, Inhabited

/-- A code: the symbols with words of each length, from one bit on. -/
abbrev Code := List (List Nat)

namespace Code

/-- The symbols whose words have a given length, by the lengths of the words of all symbols. -/
def level (lengths : List Nat) (length : Nat) : List Nat :=
  (lengths.zipIdx.filter fun (l, _) => l = length).map (·.2)

/-- The words of each length that are still free below a level, `none` if there are too few. -/
def room : Nat → Code → Option Nat
  | free, [] => some free
  | free, level :: deeper =>
    if level.length ≤ 2 * free then room (2 * free - level.length) deeper else none

/-- The code with words of the given lengths, where a symbol of length zero has none. Words of more
than `limit` bits do not occur. There must not be too few words, nor any left over; only a code
that is not `full` may have a single word, of one bit, or none at all. -/
def ofLengths? (limit : Nat) (full : Bool) (lengths : List Nat) : Option Code :=
  let longest := min limit (lengths.foldl max 1)
  let code : Code := (List.range longest).map fun n => level lengths (n + 1)
  match room 1 code with
  | none => none
  | some 0 => some code
  | some _ => if !full && longest = 1 then some code else none

/-- Follows bits down the levels of a code. At each level `first` is the first word that is given
away there, and `word` the bits so far. -/
def decodeFrom : Code → Nat → Nat → Bits → Except Stop (Nat × Bits)
  | [], _, _, _ => .error .corrupt
  | _ :: _, _, _, [] => .error .cut
  | level :: deeper, first, word, bit :: bits =>
    let word := 2 * word + bit.toNat
    match level[word - first]? with
    | some symbol => .ok (symbol, bits)
    | none => decodeFrom deeper (2 * (first + level.length)) word bits

/-- The symbol whose word the bits begin with, and the bits after it. -/
def decode (code : Code) (bits : Bits) : Except Stop (Nat × Bits) := decodeFrom code 0 0 bits

end Code

/-! ## Blocks -/

/-- The bits of bytes, those of low value first. -/
def bitsOf (bytes : List UInt8) : Bits :=
  bytes.flatMap fun b => (List.range 8).map fun i => b.toNat.testBit i

/-- A stream in expansion: the bits ahead and the bytes so far. -/
structure Expansion where
  bits : Bits
  bytes : Array UInt8 := #[]

/-- Work on a stream that can stop early. -/
abbrev Expand (α : Type) := ExceptT Stop (StateM Expansion) α

namespace Expand

/-- A bit. -/
def bit : Expand Bool := do
  match (← get).bits with
  | [] => throw .cut
  | b :: bits =>
    modify ({ · with bits })
    pure b

/-- The number that the given count of bits stands for, those of low value first. -/
def number : Nat → Expand Nat
  | 0 => pure 0
  | count + 1 => do
    let b ← bit
    pure (b.toNat + 2 * (← number count))

/-- The symbol of a code whose word is ahead. -/
def symbol (code : Code) : Expand Nat := do
  match code.decode (← get).bits with
  | .error stop => throw stop
  | .ok (found, bits) =>
    modify ({ · with bits })
    pure found

/-- One more byte. -/
def emit (b : UInt8) : Expand Unit := modify fun e => { e with bytes := e.bytes.push b }

/-- Repeats the byte at a distance as often as the count says. -/
def repeatFrom (distance : Nat) : Nat → Expand Unit
  | 0 => pure ()
  | count + 1 => do
    let e ← get
    emit (e.bytes.getD (e.bytes.size - distance) 0)
    repeatFrom distance count

/-- Passes the given count of bytes on as they are. -/
def store : Nat → Expand Unit
  | 0 => pure ()
  | count + 1 => do
    emit (.ofNat (← number 8))
    store count

/-- A block of stored bytes, which begins at a whole byte with its length, written twice. -/
def storedBlock : Expand Unit := do
  modify fun e => { e with bits := e.bits.drop (e.bits.length % 8) }
  let length ← number 16
  let complement ← number 16
  if length + complement != 0xFFFF then throw .corrupt
  store length

/-- The lengths that begin at each symbol from 257 on, with the bits that are added to them. -/
def lengthRanges : List (Nat × Nat) :=
  [(3, 0), (4, 0), (5, 0), (6, 0), (7, 0), (8, 0), (9, 0), (10, 0), (11, 1), (13, 1), (15, 1),
   (17, 1), (19, 2), (23, 2), (27, 2), (31, 2), (35, 3), (43, 3), (51, 3), (59, 3), (67, 4),
   (83, 4), (99, 4), (115, 4), (131, 5), (163, 5), (195, 5), (227, 5), (258, 0)]

/-- The distances that begin at each symbol, with the bits that are added to them. -/
def distanceRanges : List (Nat × Nat) :=
  [(1, 0), (2, 0), (3, 0), (4, 0), (5, 1), (7, 1), (9, 2), (13, 2), (17, 3), (25, 3), (33, 4),
   (49, 4), (65, 5), (97, 5), (129, 6), (193, 6), (257, 7), (385, 7), (513, 8), (769, 8),
   (1025, 9), (1537, 9), (2049, 10), (3073, 10), (4097, 11), (6145, 11), (8193, 12), (12289, 12),
   (16385, 13), (24577, 13)]

/-- The number that a symbol and the bits after it stand for. -/
def ranged (ranges : List (Nat × Nat)) (symbol : Nat) : Expand Nat := do
  match ranges[symbol]? with
  | none => throw .corrupt
  | some (start, count) => pure (start + (← number count))

/-- The rest of a block in two codes, one for bytes and lengths and one for distances. Every symbol
takes at least a bit, and the fuel bounds their number. -/
def codedBlock (symbols distances : Code) : Nat → Expand Unit
  | 0 => throw .cut
  | fuel + 1 => do
    let found ← symbol symbols
    if found < 256 then
      emit (.ofNat found)
      codedBlock symbols distances fuel
    else if found = 256 then pure ()
    else
      let length ← ranged lengthRanges (found - 257)
      let distance ← ranged distanceRanges (← symbol distances)
      if distance > (← get).bytes.size then throw .corrupt
      repeatFrom distance length
      codedBlock symbols distances fuel

/-- The code of bytes and lengths that needs no description. -/
def fixedSymbols : Code :=
  (Code.ofLengths? 15 true (List.replicate 144 8 ++ List.replicate 112 9 ++ List.replicate 24 7 ++
    List.replicate 8 8)).getD []

/-- The code of distances that needs no description. -/
def fixedDistances : Code := (Code.ofLengths? 15 true (List.replicate 32 5)).getD []

/-- The order in which the lengths of the words for lengths are written. -/
def lengthOrder : List Nat :=
  [16, 17, 18, 0, 8, 7, 9, 6, 10, 5, 11, 4, 12, 3, 13, 2, 14, 1, 15]

/-- Reads lengths of words until there are as many as wanted. A symbol stands for a length, or for
one that is repeated. -/
def readLengths (code : Code) (wanted : Nat) : Nat → List Nat → Expand (List Nat)
  | 0, done => pure done
  | fuel + 1, done => do
    if done.length ≥ wanted then return done
    let found ← symbol code
    let more ←
      if found < 16 then pure [found]
      else if found = 16 then do
        let count ← number 2
        match done.getLast? with
        | none => throw .corrupt
        | some last => pure (List.replicate (3 + count) last)
      else if found = 17 then do pure (List.replicate (3 + (← number 3)) 0)
      else do pure (List.replicate (11 + (← number 7)) 0)
    if done.length + more.length > wanted then throw .corrupt
    readLengths code wanted fuel (done ++ more)

/-- A code that must be one. -/
def codeOf (full : Bool) (lengths : List Nat) : Expand Code :=
  match Code.ofLengths? 15 full lengths with
  | some code => pure code
  | none => throw .corrupt

/-- The two codes of a block that describes them. -/
def readCodes : Expand (Code × Code) := do
  let symbolCount := 257 + (← number 5)
  let distanceCount := 1 + (← number 5)
  let lengthCount := 4 + (← number 4)
  if symbolCount > 286 || distanceCount > 30 then throw .corrupt
  let given ← (lengthOrder.take lengthCount).mapM fun symbol => do pure (symbol, ← number 3)
  let lengthCode ← codeOf true ((List.range 19).map fun symbol => (given.lookup symbol).getD 0)
  let wanted := symbolCount + distanceCount
  let lengths ← readLengths lengthCode wanted wanted []
  if lengths.getD 256 0 = 0 then throw .corrupt
  let symbols ← codeOf false (lengths.take symbolCount)
  let distances ← codeOf false (lengths.drop symbolCount)
  pure (symbols, distances)

/-- Blocks up to the one that is marked as the last. -/
def blocks : Nat → Expand Unit
  | 0 => throw .cut
  | fuel + 1 => do
    let last ← bit
    match ← number 2 with
    | 0 => storedBlock
    | 1 => codedBlock fixedSymbols fixedDistances ((← get).bits.length + 1)
    | 2 =>
      let (symbols, distances) ← readCodes
      codedBlock symbols distances ((← get).bits.length + 1)
    | _ => throw .corrupt
    if !last then blocks fuel

end Expand

/-- Expands the stream that bytes begin with. The outcome tells how many bytes lie behind it. -/
def inflate (bytes : List UInt8) : Except Stop Nat × Array UInt8 :=
  let bits := bitsOf bytes
  let (outcome, e) := StateT.run (ExceptT.run (Expand.blocks (bits.length + 1))) { bits }
  (outcome.map fun () => e.bits.length / 8, e.bytes)

end ProviderKit.Compressed
