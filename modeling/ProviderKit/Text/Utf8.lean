import ProviderKit.Text.Basic

/-!
# UTF-8

Encoding is total on texts without lone surrogates. Decoding reports the first ill-formed sequence
by its position, the number of bytes that belong to it, and what is wrong with it: the longest
valid beginning of a sequence counts as one unit.
-/

namespace ProviderKit.Utf8

/-- What is wrong with an ill-formed sequence. -/
inductive Reason where
  /-- The first byte starts no sequence. -/
  | invalidStart
  /-- A byte that should continue the sequence does not. -/
  | invalidContinuation
  /-- The input ends inside the sequence. -/
  | unexpectedEnd
deriving DecidableEq

/-- Where decoding stops: `length` bytes from `position`, the first of them `byte`. -/
structure Fault where
  byte : UInt8
  position : Nat
  length : Nat
  reason : Reason
deriving DecidableEq

/-- The byte continues a sequence. -/
def isContinuation (b : UInt8) : Bool := 0x80 ≤ b && b < 0xC0

/-- The second byte may follow the first; this excludes overlong forms, surrogates and numbers
beyond the last code point. -/
def secondAllowed (b0 b1 : UInt8) : Bool :=
  isContinuation b1 &&
    !(b0 == 0xE0 && b1 < 0xA0) && !(b0 == 0xED && 0xA0 ≤ b1) &&
    !(b0 == 0xF0 && b1 < 0x90) && !(b0 == 0xF4 && 0x90 ≤ b1)

/-- The number of bytes of a sequence, by its first byte; zero if it starts none. -/
def sequenceLength (b : UInt8) : Nat :=
  if b < 0x80 then 1 else if b < 0xC2 then 0 else if b < 0xE0 then 2
  else if b < 0xF0 then 3 else if b < 0xF5 then 4 else 0

/-- The low six bits of a continuation byte. -/
def payload (b : UInt8) : Nat := b.toNat % 64

/-- Decodes the bytes from a given position on. -/
def decodeFrom (position : Nat) : Bytes → Except Fault (List Char)
  | [] => .ok []
  | b0 :: rest =>
    let fault (length : Nat) (reason : Reason) : Except Fault (List Char) :=
      .error ⟨b0, position, length, reason⟩
    match sequenceLength b0 with
    | 1 => (Char.ofNat b0.toNat :: ·) <$> decodeFrom (position + 1) rest
    | 2 =>
      match rest with
      | [] => fault 1 .unexpectedEnd
      | b1 :: rest =>
        if !secondAllowed b0 b1 then fault 1 .invalidContinuation
        else (Char.ofNat (b0.toNat % 32 * 64 + payload b1) :: ·) <$>
          decodeFrom (position + 2) rest
    | 3 =>
      match rest with
      | [] => fault 1 .unexpectedEnd
      | b1 :: rest =>
        if !secondAllowed b0 b1 then fault 1 .invalidContinuation
        else match rest with
          | [] => fault 2 .unexpectedEnd
          | b2 :: rest =>
            if !isContinuation b2 then fault 2 .invalidContinuation
            else (Char.ofNat ((b0.toNat % 16 * 64 + payload b1) * 64 + payload b2) :: ·) <$>
              decodeFrom (position + 3) rest
    | 4 =>
      match rest with
      | [] => fault 1 .unexpectedEnd
      | b1 :: rest =>
        if !secondAllowed b0 b1 then fault 1 .invalidContinuation
        else match rest with
          | [] => fault 2 .unexpectedEnd
          | b2 :: rest =>
            if !isContinuation b2 then fault 2 .invalidContinuation
            else match rest with
              | [] => fault 3 .unexpectedEnd
              | b3 :: rest =>
                if !isContinuation b3 then fault 3 .invalidContinuation
                else (Char.ofNat
                    (((b0.toNat % 8 * 64 + payload b1) * 64 + payload b2) * 64 + payload b3) :: ·)
                  <$> decodeFrom (position + 4) rest
    | _ => fault 1 .invalidStart

/-- The text of a sequence of bytes, or its first fault. -/
def decode (bytes : Bytes) : Except Fault Text := Text.ofChars <$> decodeFrom 0 bytes

/-- The bytes of a text, if it holds no lone surrogate. -/
def encode? : Text → Option Bytes
  | [] => some []
  | .char c :: t => (encode? t).map (String.utf8EncodeChar c ++ ·)
  | .surrogate _ :: _ => none

/-- Two lower-case hexadecimal digits. -/
def hexByte (b : UInt8) : Text :=
  .ofChars [Nat.digitChar (b.toNat / 16), Nat.digitChar (b.toNat % 16)]

/-- The wording of each reason. -/
def Reason.message : Reason → String
  | invalidStart => "invalid start byte"
  | invalidContinuation => "invalid continuation byte"
  | unexpectedEnd => "unexpected end of data"

/-- A single byte is shown by its value, a longer sequence by its range of positions. -/
def Fault.message (f : Fault) : Text :=
  let place : Text :=
    if f.length = 1 then "byte 0x" ++ hexByte f.byte ++ " in position " ++ Text.ofNat f.position
    else "bytes in position " ++ Text.ofNat f.position ++ "-" ++
      Text.ofNat (f.position + f.length - 1)
  "'utf-8' codec can't decode " ++ place ++ ": " ++ Text.ofString f.reason.message

end ProviderKit.Utf8
