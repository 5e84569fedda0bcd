import ProviderKit.Text.Utf8

/-!
# Bytes as text, without loss

Names, arguments and variables are bytes to the machine. As a text, a byte that belongs to no
well-formed sequence is the surrogate `0xDC00 + byte`, so that the same bytes can be written again.
-/

namespace ProviderKit.Utf8

/-- The surrogate that stands for a byte. -/
def strayByte (b : UInt8) : CodePoint := .surrogateAt (0x400 + b.toNat)

/-- The bytes of a code point; a surrogate is written as the byte that it stands for. -/
def codePointBytes : CodePoint → Bytes
  | .char c => String.utf8EncodeChar c
  | .surrogate s => [UInt8.ofNat s.val]

/-- The bytes of a text that may hold stray bytes. -/
def encodeLossless (t : Text) : Bytes := t.flatMap codePointBytes

/-- The text of the bytes, with at most the given number of stray bytes. -/
def decodeLosslessWith : Nat → Bytes → Text
  | 0, bytes => bytes.map strayByte
  | fuel + 1, bytes =>
    match decode bytes with
    | .ok text => text
    | .error fault =>
      let valid := match decode (bytes.take fault.position) with
        | .ok text => text
        | .error _ => []
      valid ++ strayByte fault.byte :: decodeLosslessWith fuel (bytes.drop (fault.position + 1))

/-- The text of any bytes. -/
def decodeLossless (bytes : Bytes) : Text := decodeLosslessWith bytes.length bytes

/-- The number of bytes of a text that may hold stray bytes. -/
def losslessSize (t : Text) : Nat := (encodeLossless t).length

/-- The text that the bytes of a text read back as: stray bytes that make up a well-formed sequence
are the character of that sequence. -/
def canonical (t : Text) : Text :=
  if t.isWellFormed then t else decodeLossless (encodeLossless t)

end ProviderKit.Utf8
