import ProviderKit.Compressed.Inflate

/-!
# Compressed files

A compressed file is a row of parts, each with a header, a deflated stream, and the check value and
the size of what the stream expands to. Zero bytes may follow a part. Bytes are handed on before the
part is known to be sound, so a file is seen as the bytes that it yields and the fault, if any, that
whoever asks for more will meet.

The check value of bytes is the remainder of their polynomial, bit by bit from the low end, by a
fixed polynomial of degree 32, with the first and the last 32 bits inverted.
-/

namespace ProviderKit.Compressed

/-! ## The cyclic redundancy check -/

/-- The polynomial that is divided by, without its highest term and from the low end. -/
def checkPolynomial : UInt32 := 0xEDB88320

/-- The remainder after one more bit. -/
def checkBit (remainder : UInt32) : UInt32 :=
  if remainder &&& 1 = 1 then (remainder >>> 1) ^^^ checkPolynomial else remainder >>> 1

/-- The remainder after one more byte. -/
def checkByte (remainder : UInt32) (b : UInt8) : UInt32 :=
  (List.range 8).foldl (fun r _ => checkBit r) (remainder ^^^ b.toUInt32)

/-- The check value of bytes. -/
def checksum (bytes : Array UInt8) : UInt32 := ~~~(bytes.foldl checkByte 0xFFFFFFFF)

/-! ## Parts and files -/

/-- Why a compressed file yields no more bytes. -/
inductive Fault where
  /-- What follows is no part of a compressed file. -/
  | foreign
  /-- A part does not have the check value or the size that it should. -/
  | damaged
  /-- The file ends inside a part. -/
  | cut
  /-- A stream cannot be expanded. -/
  | corrupt
deriving DecidableEq, Inhabited

/-- What a compressed file yields. -/
structure Expanded where
  bytes : Array UInt8
  fault : Option Fault := none

namespace Expanded

/-- The bytes of a stretch, fewer where they end without a fault. -/
def read (e : Expanded) (start count : Nat) : Except Fault (List UInt8) :=
  let stretch := (e.bytes.extract start (start + count)).toList
  if start + count ≤ e.bytes.size then .ok stretch
  else match e.fault with
    | some fault => .error fault
    | none => .ok stretch

end Expanded

/-- The number that bytes stand for, those of low value first. -/
def littleEndian (bytes : List UInt8) : Nat :=
  bytes.foldr (fun b n => b.toNat + 256 * n) 0

/-- The given count of bytes, and those after them. -/
def takeExactly (count : Nat) (bytes : List UInt8) : Except Fault (List UInt8 × List UInt8) :=
  if bytes.length < count then .error .cut else .ok (bytes.splitAt count)

/-- The bytes after a text that ends with a zero byte, or with the file. -/
def dropText (bytes : List UInt8) : List UInt8 := (bytes.dropWhile (· != 0)).drop 1

/-- The bytes behind the header of a part. -/
def dropHeader (bytes : List UInt8) : Except Fault (List UInt8) := do
  if bytes.take 2 != [0x1F, 0x8B] then throw .foreign
  let (fixed, rest) ← takeExactly 8 (bytes.drop 2)
  if fixed.head? != some 8 then throw .foreign
  let flag (i : Nat) : Bool := (fixed.getD 1 0).toNat.testBit i
  let rest ← if flag 2 then do
      let (length, rest) ← takeExactly 2 rest
      pure (← takeExactly (littleEndian length) rest).2
    else pure rest
  let rest := if flag 3 then dropText rest else rest
  let rest := if flag 4 then dropText rest else rest
  if flag 1 then pure (← takeExactly 2 rest).2 else pure rest

/-- The bytes behind the check value and the size of a part, and behind the zero bytes there. -/
def dropTrailer (part : Array UInt8) (bytes : List UInt8) : Except Fault (List UInt8) := do
  let (check, rest) ← takeExactly 4 bytes
  let (size, rest) ← takeExactly 4 rest
  if littleEndian check != (checksum part).toNat ||
      littleEndian size != part.size % Nat.pow 2 32 then
    throw .damaged
  pure (rest.dropWhile (· = 0))

/-- How many bytes are expanded at a time. The ones that are expanded together with a corrupt place
are lost. -/
def portion : Nat := 8192

/-- Expands parts one after the other; every part takes at least a byte. -/
def expandWith : Nat → Array UInt8 → List UInt8 → Expanded
  | 0, done, _ => { bytes := done }
  | _, done, [] => { bytes := done }
  | fuel + 1, done, bytes =>
    match dropHeader bytes with
    | .error fault => { bytes := done, fault := some fault }
    | .ok rest =>
      match inflate rest with
      | (.error .cut, part) => { bytes := done ++ part, fault := some .cut }
      | (.error .corrupt, part) =>
        { bytes := done ++ part.extract 0 (part.size / portion * portion), fault := some .corrupt }
      | (.ok behind, part) =>
        match dropTrailer part (rest.drop (rest.length - behind)) with
        | .error fault => { bytes := done ++ part, fault := some fault }
        | .ok rest => expandWith fuel (done ++ part) rest

/-- Expands a compressed file. -/
def expand (bytes : List UInt8) : Expanded := expandWith (bytes.length + 1) #[] bytes

end ProviderKit.Compressed
