import ProviderKit.Text.Lossless

/-!
# UTF-8 loses nothing

Decoding and encoding undo each other: the text that a sequence of bytes decodes to has those bytes
(`encode_of_decode`), and the bytes of a text decode to it (`decode_encode`). Bytes that are no
UTF-8 are kept as stray bytes, so that any bytes read as a text are the bytes of that text
(`encodeLossless_decodeLossless`), and bringing a text into its canonical form does not change its
bytes (`encodeLossless_canonical`).
-/

namespace ProviderKit.Utf8

/-! ## Single bytes -/

/-- A continuation byte, by its number. -/
theorem isContinuation_iff (b : UInt8) :
    isContinuation b = true ↔ 0x80 ≤ b.toNat ∧ b.toNat < 0xC0 := by
  simp [isContinuation, UInt8.le_iff_toNat_le, UInt8.lt_iff_toNat_lt]

/-- A byte that may follow the first one of a longer sequence, by its number. -/
theorem secondAllowed_iff (b0 b1 : UInt8) :
    secondAllowed b0 b1 = true ↔ (0x80 ≤ b1.toNat ∧ b1.toNat < 0xC0) ∧
      (b0.toNat = 0xE0 → 0xA0 ≤ b1.toNat) ∧ (b0.toNat = 0xED → b1.toNat < 0xA0) ∧
      (b0.toNat = 0xF0 → 0x90 ≤ b1.toNat) ∧ (b0.toNat = 0xF4 → b1.toNat < 0x90) := by
  have hnum : ∀ n : UInt8, b0 = n ↔ b0.toNat = n.toNat := fun n => UInt8.toNat_inj.symm
  simp only [secondAllowed, Bool.and_eq_true, isContinuation_iff, Bool.not_eq_true',
    Bool.and_eq_false_iff, beq_eq_false_iff_ne, ne_eq, decide_eq_false_iff_not,
    UInt8.lt_iff_toNat_lt, UInt8.le_iff_toNat_le, hnum]
  simp only [UInt8.reduceToNat]
  omega

/-- The length of a sequence by the number of its first byte. -/
theorem sequenceLength_eq (b : UInt8) :
    sequenceLength b = if b.toNat < 0x80 then 1 else if b.toNat < 0xC2 then 0
      else if b.toNat < 0xE0 then 2 else if b.toNat < 0xF0 then 3
      else if b.toNat < 0xF5 then 4 else 0 := by
  simp only [sequenceLength, UInt8.lt_iff_toNat_lt, UInt8.reduceToNat]

/-- A sequence of one byte starts below `0x80`. -/
theorem sequenceLength_eq_one {b : UInt8} : sequenceLength b = 1 ↔ b.toNat < 0x80 := by
  rw [sequenceLength_eq]
  grind

/-- A sequence of two bytes starts with a byte from `0xC2` to `0xDF`. -/
theorem sequenceLength_eq_two {b : UInt8} :
    sequenceLength b = 2 ↔ 0xC2 ≤ b.toNat ∧ b.toNat < 0xE0 := by
  rw [sequenceLength_eq]
  grind

/-- A sequence of three bytes starts with a byte from `0xE0` to `0xEF`. -/
theorem sequenceLength_eq_three {b : UInt8} :
    sequenceLength b = 3 ↔ 0xE0 ≤ b.toNat ∧ b.toNat < 0xF0 := by
  rw [sequenceLength_eq]
  grind

/-- A sequence of four bytes starts with a byte from `0xF0` to `0xF4`. -/
theorem sequenceLength_eq_four {b : UInt8} :
    sequenceLength b = 4 ↔ 0xF0 ≤ b.toNat ∧ b.toNat < 0xF5 := by
  rw [sequenceLength_eq]
  grind

/-! ## Single characters -/

/-- The bytes of the character with a given number. -/
theorem utf8EncodeChar_ofNat {v : Nat} (h : v.isValidChar) :
    String.utf8EncodeChar (Char.ofNat v) =
      if v ≤ 0x7F then [UInt8.ofNat v]
      else if v ≤ 0x7FF then [UInt8.ofNat (v / 64 % 32 + 0xC0), UInt8.ofNat (v % 64 + 0x80)]
      else if v ≤ 0xFFFF then
        [UInt8.ofNat (v / 4096 % 16 + 0xE0), UInt8.ofNat (v / 64 % 64 + 0x80),
          UInt8.ofNat (v % 64 + 0x80)]
      else
        [UInt8.ofNat (v / 262144 % 8 + 0xF0), UInt8.ofNat (v / 4096 % 64 + 0x80),
          UInt8.ofNat (v / 64 % 64 + 0x80), UInt8.ofNat (v % 64 + 0x80)] := by
  have hv : (Char.ofNat v).val.toNat = v := by
    unfold Char.ofNat
    rw [dif_pos h]
    rfl
  unfold String.utf8EncodeChar
  rw [hv]

/-- A byte below 256 is the byte of its number. -/
theorem ofNat_eq_of_toNat {b : UInt8} {n : Nat} (h : n = b.toNat) : UInt8.ofNat n = b := by
  rw [h, UInt8.ofNat_toNat]

/-- The number of the byte of a number below 256. -/
theorem toNat_ofNat_of_lt {n : Nat} (h : n < 256) : (UInt8.ofNat n).toNat = n :=
  UInt8.toNat_ofNat_of_lt' (by rw [UInt8.size]; exact h)

/-- A single byte below `0x80` is the encoding of its own number. -/
theorem utf8EncodeChar_one {b : UInt8} (h : b.toNat < 0x80) :
    String.utf8EncodeChar (Char.ofNat b.toNat) = [b] := by
  rw [utf8EncodeChar_ofNat (.inl (by omega)), if_pos (by omega), ofNat_eq_of_toNat rfl]

/-- Two bytes of a sequence are the encoding of the number that they make up. -/
theorem utf8EncodeChar_two {b0 b1 : UInt8} (h0 : 0xC2 ≤ b0.toNat ∧ b0.toNat < 0xE0)
    (h1 : secondAllowed b0 b1 = true) :
    String.utf8EncodeChar (Char.ofNat (b0.toNat % 32 * 64 + payload b1)) = [b0, b1] := by
  rw [secondAllowed_iff] at h1
  unfold payload
  rw [utf8EncodeChar_ofNat (.inl (by omega)), if_neg (by omega), if_pos (by omega),
    ofNat_eq_of_toNat (b := b0) (by omega), ofNat_eq_of_toNat (b := b1) (by omega)]

/-- Three bytes of a sequence are the encoding of the number that they make up. -/
theorem utf8EncodeChar_three {b0 b1 b2 : UInt8} (h0 : 0xE0 ≤ b0.toNat ∧ b0.toNat < 0xF0)
    (h1 : secondAllowed b0 b1 = true) (h2 : isContinuation b2 = true) :
    String.utf8EncodeChar
      (Char.ofNat ((b0.toNat % 16 * 64 + payload b1) * 64 + payload b2)) = [b0, b1, b2] := by
  rw [secondAllowed_iff] at h1
  rw [isContinuation_iff] at h2
  unfold payload
  have hvalid : ((b0.toNat % 16 * 64 + b1.toNat % 64) * 64 + b2.toNat % 64).isValidChar := by
    unfold Nat.isValidChar
    omega
  rw [utf8EncodeChar_ofNat hvalid, if_neg (by omega), if_neg (by omega), if_pos (by omega),
    ofNat_eq_of_toNat (b := b0) (by omega), ofNat_eq_of_toNat (b := b1) (by omega),
    ofNat_eq_of_toNat (b := b2) (by omega)]

/-- Four bytes of a sequence are the encoding of the number that they make up. -/
theorem utf8EncodeChar_four {b0 b1 b2 b3 : UInt8} (h0 : 0xF0 ≤ b0.toNat ∧ b0.toNat < 0xF5)
    (h1 : secondAllowed b0 b1 = true) (h2 : isContinuation b2 = true)
    (h3 : isContinuation b3 = true) :
    String.utf8EncodeChar (Char.ofNat
      (((b0.toNat % 8 * 64 + payload b1) * 64 + payload b2) * 64 + payload b3)) =
        [b0, b1, b2, b3] := by
  rw [secondAllowed_iff] at h1
  rw [isContinuation_iff] at h2 h3
  unfold payload
  have hvalid : (((b0.toNat % 8 * 64 + b1.toNat % 64) * 64 + b2.toNat % 64) * 64 +
      b3.toNat % 64).isValidChar := by
    unfold Nat.isValidChar
    omega
  rw [utf8EncodeChar_ofNat hvalid, if_neg (by omega), if_neg (by omega), if_neg (by omega),
    ofNat_eq_of_toNat (b := b0) (by omega), ofNat_eq_of_toNat (b := b1) (by omega),
    ofNat_eq_of_toNat (b := b2) (by omega), ofNat_eq_of_toNat (b := b3) (by omega)]

/-! ## One step of decoding -/

/-- Decoding takes a single byte below `0x80` as a character. -/
theorem decodeFrom_one {b : UInt8} (h : b.toNat < 0x80) (position : Nat) (tail : Bytes) :
    decodeFrom position (b :: tail) =
      (Char.ofNat b.toNat :: ·) <$> decodeFrom (position + 1) tail := by
  rw [decodeFrom.eq_def]
  simp only [sequenceLength_eq_one.2 h]

/-- Decoding takes a sequence of two bytes as a character. -/
theorem decodeFrom_two {b0 b1 : UInt8} (h0 : 0xC2 ≤ b0.toNat ∧ b0.toNat < 0xE0)
    (h1 : secondAllowed b0 b1 = true) (position : Nat) (tail : Bytes) :
    decodeFrom position (b0 :: b1 :: tail) =
      (Char.ofNat (b0.toNat % 32 * 64 + payload b1) :: ·) <$>
        decodeFrom (position + 2) tail := by
  rw [decodeFrom.eq_def]
  simp only [sequenceLength_eq_two.2 h0, h1]
  rfl

/-- Decoding takes a sequence of three bytes as a character. -/
theorem decodeFrom_three {b0 b1 b2 : UInt8} (h0 : 0xE0 ≤ b0.toNat ∧ b0.toNat < 0xF0)
    (h1 : secondAllowed b0 b1 = true) (h2 : isContinuation b2 = true) (position : Nat)
    (tail : Bytes) :
    decodeFrom position (b0 :: b1 :: b2 :: tail) =
      (Char.ofNat ((b0.toNat % 16 * 64 + payload b1) * 64 + payload b2) :: ·) <$>
        decodeFrom (position + 3) tail := by
  rw [decodeFrom.eq_def]
  simp only [sequenceLength_eq_three.2 h0, h1, h2]
  rfl

/-- Decoding takes a sequence of four bytes as a character. -/
theorem decodeFrom_four {b0 b1 b2 b3 : UInt8} (h0 : 0xF0 ≤ b0.toNat ∧ b0.toNat < 0xF5)
    (h1 : secondAllowed b0 b1 = true) (h2 : isContinuation b2 = true)
    (h3 : isContinuation b3 = true) (position : Nat) (tail : Bytes) :
    decodeFrom position (b0 :: b1 :: b2 :: b3 :: tail) =
      (Char.ofNat (((b0.toNat % 8 * 64 + payload b1) * 64 + payload b2) * 64 + payload b3) :: ·)
        <$> decodeFrom (position + 4) tail := by
  rw [decodeFrom.eq_def]
  simp only [sequenceLength_eq_four.2 h0, h1, h2, h3]
  rfl

/-- Decoding takes the bytes of one character off the front, or stops at the first byte. -/
theorem decodeFrom_step (position : Nat) (b0 : UInt8) (rest : Bytes) :
    (∃ c tail, b0 :: rest = String.utf8EncodeChar c ++ tail ∧
      decodeFrom position (b0 :: rest) =
        (c :: ·) <$> decodeFrom (position + (String.utf8EncodeChar c).length) tail) ∨
    ∃ length reason,
      decodeFrom position (b0 :: rest) = .error ⟨b0, position, length, reason⟩ := by
  rcases hlen : sequenceLength b0 with _ | _ | _ | _ | _ | n
  case zero => exact .inr ⟨_, _, by rw [decodeFrom.eq_def]; simp only [hlen]; rfl⟩
  case succ.zero =>
    have h0 := sequenceLength_eq_one.1 hlen
    have henc := utf8EncodeChar_one h0
    exact .inl ⟨_, rest, by rw [henc]; rfl, by rw [henc, decodeFrom_one h0]; rfl⟩
  case succ.succ.zero =>
    have h0 := sequenceLength_eq_two.1 hlen
    rcases rest with _ | ⟨b1, rest⟩
    · exact .inr ⟨_, _, by rw [decodeFrom.eq_def]; simp only [hlen]; rfl⟩
    by_cases h1 : secondAllowed b0 b1 = true
    · have henc := utf8EncodeChar_two h0 h1
      exact .inl ⟨_, rest, by rw [henc]; rfl, by rw [henc, decodeFrom_two h0 h1]; rfl⟩
    · exact .inr ⟨_, _, by rw [decodeFrom.eq_def]; simp only [hlen, h1]; rfl⟩
  case succ.succ.succ.zero =>
    have h0 := sequenceLength_eq_three.1 hlen
    rcases rest with _ | ⟨b1, rest⟩
    · exact .inr ⟨_, _, by rw [decodeFrom.eq_def]; simp only [hlen]; rfl⟩
    by_cases h1 : secondAllowed b0 b1 = true
    · rcases rest with _ | ⟨b2, rest⟩
      · exact .inr ⟨_, _, by rw [decodeFrom.eq_def]; simp only [hlen, h1]; rfl⟩
      by_cases h2 : isContinuation b2 = true
      · have henc := utf8EncodeChar_three h0 h1 h2
        exact .inl ⟨_, rest, by rw [henc]; rfl, by rw [henc, decodeFrom_three h0 h1 h2]; rfl⟩
      · exact .inr ⟨_, _, by rw [decodeFrom.eq_def]; simp only [hlen, h1, h2]; rfl⟩
    · exact .inr ⟨_, _, by rw [decodeFrom.eq_def]; simp only [hlen, h1]; rfl⟩
  case succ.succ.succ.succ.zero =>
    have h0 := sequenceLength_eq_four.1 hlen
    rcases rest with _ | ⟨b1, rest⟩
    · exact .inr ⟨_, _, by rw [decodeFrom.eq_def]; simp only [hlen]; rfl⟩
    by_cases h1 : secondAllowed b0 b1 = true
    · rcases rest with _ | ⟨b2, rest⟩
      · exact .inr ⟨_, _, by rw [decodeFrom.eq_def]; simp only [hlen, h1]; rfl⟩
      by_cases h2 : isContinuation b2 = true
      · rcases rest with _ | ⟨b3, rest⟩
        · exact .inr ⟨_, _, by rw [decodeFrom.eq_def]; simp only [hlen, h1, h2]; rfl⟩
        by_cases h3 : isContinuation b3 = true
        · have henc := utf8EncodeChar_four h0 h1 h2 h3
          exact .inl ⟨_, rest, by rw [henc]; rfl,
            by rw [henc, decodeFrom_four h0 h1 h2 h3]; rfl⟩
        · exact .inr ⟨_, _, by rw [decodeFrom.eq_def]; simp only [hlen, h1, h2, h3]; rfl⟩
      · exact .inr ⟨_, _, by rw [decodeFrom.eq_def]; simp only [hlen, h1, h2]; rfl⟩
    · exact .inr ⟨_, _, by rw [decodeFrom.eq_def]; simp only [hlen, h1]; rfl⟩
  case succ.succ.succ.succ.succ =>
    exact .inr ⟨_, _, by rw [decodeFrom.eq_def]; simp only [hlen]; rfl⟩

/-- A character is encoded in at least one byte. -/
theorem utf8EncodeChar_length_pos (c : Char) : 0 < (String.utf8EncodeChar c).length :=
  List.length_pos_iff.2 String.utf8EncodeChar_ne_nil

/-- Decoding goes on behind an encoded character. -/
theorem decodeFrom_utf8EncodeChar_append (position : Nat) (c : Char) (tail : Bytes) :
    decodeFrom position (String.utf8EncodeChar c ++ tail) =
      (c :: ·) <$> decodeFrom (position + (String.utf8EncodeChar c).length) tail := by
  have hvalid : c.toNat < 0xD800 ∨ 0xDFFF < c.toNat ∧ c.toNat < 0x110000 := c.valid
  have henc := utf8EncodeChar_ofNat (v := c.toNat) c.valid
  rw [Char.ofNat_toNat] at henc
  by_cases h1 : c.toNat ≤ 0x7F
  · rw [if_pos h1] at henc
    have hb := toNat_ofNat_of_lt (n := c.toNat) (by omega)
    rw [henc, List.singleton_append, decodeFrom_one (by omega), hb, Char.ofNat_toNat]
    rfl
  rw [if_neg h1] at henc
  by_cases h2 : c.toNat ≤ 0x7FF
  · rw [if_pos h2] at henc
    have hb0 := toNat_ofNat_of_lt (n := c.toNat / 64 % 32 + 0xC0) (by omega)
    have hb1 := toNat_ofNat_of_lt (n := c.toNat % 64 + 0x80) (by omega)
    generalize UInt8.ofNat (c.toNat / 64 % 32 + 0xC0) = b0 at henc hb0
    generalize UInt8.ofNat (c.toNat % 64 + 0x80) = b1 at henc hb1
    have hs1 : secondAllowed b0 b1 = true := by rw [secondAllowed_iff]; omega
    have hval : b0.toNat % 32 * 64 + payload b1 = c.toNat := by unfold payload; omega
    rw [henc, List.cons_append, List.singleton_append, decodeFrom_two (by omega) hs1, hval,
      Char.ofNat_toNat]
    rfl
  rw [if_neg h2] at henc
  have hb1 := toNat_ofNat_of_lt (n := c.toNat / 64 % 64 + 0x80) (by omega)
  have hb2 := toNat_ofNat_of_lt (n := c.toNat % 64 + 0x80) (by omega)
  generalize UInt8.ofNat (c.toNat / 64 % 64 + 0x80) = b1 at henc hb1
  generalize UInt8.ofNat (c.toNat % 64 + 0x80) = b2 at henc hb2
  have hs2 : isContinuation b2 = true := by rw [isContinuation_iff]; omega
  by_cases h3 : c.toNat ≤ 0xFFFF
  · rw [if_pos h3] at henc
    have hb0 := toNat_ofNat_of_lt (n := c.toNat / 4096 % 16 + 0xE0) (by omega)
    generalize UInt8.ofNat (c.toNat / 4096 % 16 + 0xE0) = b0 at henc hb0
    have hs1 : secondAllowed b0 b1 = true := by rw [secondAllowed_iff]; omega
    have hval : (b0.toNat % 16 * 64 + payload b1) * 64 + payload b2 = c.toNat := by
      unfold payload; omega
    rw [henc, List.cons_append, List.cons_append, List.singleton_append,
      decodeFrom_three (by omega) hs1 hs2, hval, Char.ofNat_toNat]
    rfl
  · rw [if_neg h3] at henc
    have hb0 := toNat_ofNat_of_lt (n := c.toNat / 262144 % 8 + 0xF0) (by omega)
    have hb := toNat_ofNat_of_lt (n := c.toNat / 4096 % 64 + 0x80) (by omega)
    generalize UInt8.ofNat (c.toNat / 262144 % 8 + 0xF0) = b0 at henc hb0
    generalize UInt8.ofNat (c.toNat / 4096 % 64 + 0x80) = b at henc hb
    have hs : secondAllowed b0 b = true := by rw [secondAllowed_iff]; omega
    have hs1 : isContinuation b1 = true := by rw [isContinuation_iff]; omega
    have hval : ((b0.toNat % 8 * 64 + payload b) * 64 + payload b1) * 64 + payload b2 =
        c.toNat := by
      unfold payload; omega
    rw [henc, List.cons_append, List.cons_append, List.cons_append, List.singleton_append,
      decodeFrom_four (by omega) hs hs1 hs2, hval, Char.ofNat_toNat]
    rfl

/-! ## Decoding and encoding undo each other -/

/-- What is decoded from a position on has the bytes that were there. -/
theorem flatMap_of_decodeFrom {bytes : Bytes} {position : Nat} {cs : List Char}
    (h : decodeFrom position bytes = .ok cs) : cs.flatMap String.utf8EncodeChar = bytes := by
  -- Each step takes at least one byte, so the induction is on the number of bytes left.
  induction hn : bytes.length using Nat.strongRecOn generalizing bytes position cs with
  | ind n ih =>
    rcases bytes with _ | ⟨b0, rest⟩
    · cases h
      rfl
    rcases decodeFrom_step position b0 rest with ⟨c, tail, hsplit, hstep⟩ | ⟨_, _, hstep⟩
    · rw [hstep] at h
      rcases htail : decodeFrom (position + (String.utf8EncodeChar c).length) tail with _ | ds
      · rw [htail] at h
        cases h
      · rw [htail] at h
        cases h
        have hpos := utf8EncodeChar_length_pos c
        have hlen := congrArg List.length hsplit
        rw [List.length_append] at hlen
        rw [List.flatMap_cons, ih tail.length (by omega) htail rfl, hsplit]
    · rw [hstep] at h
      cases h

/-- Bytes that do not decode have a text before the fault, and then the byte at fault. -/
theorem decodeFrom_error {bytes : Bytes} {position : Nat} {fault : Fault}
    (h : decodeFrom position bytes = .error fault) :
    ∃ (valid : Bytes) (rest : Bytes) (cs : List Char), bytes = valid ++ fault.byte :: rest ∧
      fault.position = position + valid.length ∧ decodeFrom position valid = .ok cs := by
  induction hn : bytes.length using Nat.strongRecOn generalizing bytes position with
  | ind n ih =>
    rcases bytes with _ | ⟨b0, rest⟩
    · cases h
    rcases decodeFrom_step position b0 rest with ⟨c, tail, hsplit, hstep⟩ | ⟨_, _, hstep⟩
    · rw [hstep] at h
      rcases htail : decodeFrom (position + (String.utf8EncodeChar c).length) tail with e | _
      · rw [htail] at h
        cases h
        have hpos := utf8EncodeChar_length_pos c
        have hlen := congrArg List.length hsplit
        rw [List.length_append] at hlen
        obtain ⟨valid, left, cs, htake, hat, hvalid⟩ := ih tail.length (by omega) htail rfl
        refine ⟨String.utf8EncodeChar c ++ valid, left, c :: cs, ?_, ?_, ?_⟩
        · rw [hsplit, htake, List.append_assoc]
        · rw [hat, List.length_append]
          omega
        · rw [decodeFrom_utf8EncodeChar_append, hvalid]
          rfl
      · rw [htail] at h
        cases h
    · rw [hstep] at h
      cases h
      exact ⟨[], rest, [], rfl, rfl, rfl⟩

/-- The bytes of a sequence of characters decode to them. -/
theorem decodeFrom_flatMap (cs : List Char) (position : Nat) :
    decodeFrom position (cs.flatMap String.utf8EncodeChar) = .ok cs := by
  induction cs generalizing position with
  | nil => rfl
  | cons c cs ih =>
    rw [List.flatMap_cons, decodeFrom_utf8EncodeChar_append, ih]
    rfl

/-- The bytes of a text of characters. -/
theorem encode?_ofChars (cs : List Char) :
    encode? (Text.ofChars cs) = some (cs.flatMap String.utf8EncodeChar) := by
  induction cs with
  | nil => rfl
  | cons c cs ih =>
    show (encode? (Text.ofChars cs)).map (String.utf8EncodeChar c ++ ·) = _
    rw [ih]
    rfl

/-- A text that can be encoded is made of characters. -/
theorem ofChars_of_encode? {t : Text} {bytes : Bytes} (h : encode? t = some bytes) :
    ∃ cs, t = Text.ofChars cs := by
  induction t generalizing bytes with
  | nil => exact ⟨[], rfl⟩
  | cons c t ih =>
    rcases c with c | s
    · rcases ht : encode? t with _ | rest
      · simp only [encode?, ht, Option.map_none, reduceCtorEq] at h
      · obtain ⟨cs, rfl⟩ := ih ht
        exact ⟨c :: cs, rfl⟩
    · cases h

/-- The bytes of a text decode to it. -/
theorem decode_encode {t : Text} {bytes : Bytes} (h : encode? t = some bytes) :
    decode bytes = .ok t := by
  obtain ⟨cs, rfl⟩ := ofChars_of_encode? h
  rw [encode?_ofChars] at h
  cases h
  rw [decode, decodeFrom_flatMap]
  rfl

/-- The text that a sequence of bytes decodes to has those bytes. -/
theorem encode_of_decode {t : Text} {bytes : Bytes} (h : decode bytes = .ok t) :
    encode? t = some bytes := by
  unfold decode at h
  rcases hcs : decodeFrom 0 bytes with _ | cs
  · rw [hcs] at h
    cases h
  · rw [hcs] at h
    cases h
    rw [encode?_ofChars, flatMap_of_decodeFrom hcs]

/-! ## Stray bytes -/

/-- A stray byte is written as itself. -/
@[simp]
theorem codePointBytes_strayByte (b : UInt8) : codePointBytes (strayByte b) = [b] := by
  have hb := b.toNat_lt
  have hval : (Fin.ofNat 2048 (0x400 + b.toNat)).val = 0x400 + b.toNat := by
    rw [Fin.val_ofNat]; omega
  show [UInt8.ofNat (Fin.ofNat 2048 (0x400 + b.toNat)).val] = [b]
  rw [hval]
  congr 1
  apply UInt8.toNat_inj.1
  rw [UInt8.toNat_ofNat']
  omega

/-- The bytes of two texts one after the other. -/
theorem encodeLossless_append (s t : Text) :
    encodeLossless (s ++ t) = encodeLossless s ++ encodeLossless t := List.flatMap_append

/-- The bytes of a text of characters are its UTF-8. -/
theorem encodeLossless_ofChars (cs : List Char) :
    encodeLossless (Text.ofChars cs) = cs.flatMap String.utf8EncodeChar := by
  rw [encodeLossless, Text.ofChars, List.flatMap_map]
  rfl

/-- The text that a sequence of bytes decodes to is written as those bytes. -/
theorem encodeLossless_of_decode {t : Text} {bytes : Bytes} (h : decode bytes = .ok t) :
    encodeLossless t = bytes := by
  have henc := encode_of_decode h
  obtain ⟨cs, rfl⟩ := ofChars_of_encode? henc
  rw [encode?_ofChars] at henc
  rw [encodeLossless_ofChars]
  exact Option.some.inj henc

/-- Any bytes read as a text are the bytes of that text. -/
theorem encodeLossless_decodeLosslessWith (fuel : Nat) (bytes : Bytes) :
    encodeLossless (decodeLosslessWith fuel bytes) = bytes := by
  induction fuel generalizing bytes with
  | zero =>
    induction bytes with
    | nil => rfl
    | cons b bytes ih =>
      show codePointBytes (strayByte b) ++ encodeLossless (decodeLosslessWith 0 bytes) = _
      rw [codePointBytes_strayByte, ih]
      rfl
  | succ fuel ih =>
    rw [decodeLosslessWith]
    rcases hdec : decode bytes with fault | t
    · have hfrom : decodeFrom 0 bytes = .error fault := by
        unfold decode at hdec
        rcases h : decodeFrom 0 bytes with e | _
        · rw [h] at hdec
          cases hdec
          rfl
        · rw [h] at hdec
          cases hdec
      obtain ⟨valid, rest, cs, rfl, hposition, hvalid⟩ := decodeFrom_error hfrom
      have hat : fault.position = valid.length := by omega
      have hprefix : decode valid = .ok (Text.ofChars cs) := by
        rw [decode, hvalid]
        rfl
      have htake : (valid ++ fault.byte :: rest).take fault.position = valid := by
        rw [hat, List.take_left]
      have hdrop : (valid ++ fault.byte :: rest).drop (fault.position + 1) = rest := by
        rw [hat, List.drop_length_add_append]
        rfl
      dsimp only
      rw [htake, hdrop, hprefix]
      dsimp only
      rw [encodeLossless_append, encodeLossless_of_decode hprefix]
      show valid ++ (codePointBytes (strayByte fault.byte) ++
        encodeLossless (decodeLosslessWith fuel rest)) = _
      rw [codePointBytes_strayByte, ih]
      rfl
    · exact encodeLossless_of_decode hdec

/-- Any bytes read as a text are the bytes of that text. -/
@[simp]
theorem encodeLossless_decodeLossless (bytes : Bytes) :
    encodeLossless (decodeLossless bytes) = bytes := encodeLossless_decodeLosslessWith _ bytes

/-- The canonical form of a text has the same bytes. -/
@[simp]
theorem encodeLossless_canonical (t : Text) : encodeLossless (canonical t) = encodeLossless t := by
  unfold canonical
  split
  · rfl
  · exact encodeLossless_decodeLossless _

/-- A text of characters is its own canonical form. -/
@[simp]
theorem canonical_ofChars (cs : List Char) : canonical (Text.ofChars cs) = Text.ofChars cs := by
  have hwell : (Text.ofChars cs).isWellFormed = true := by
    simp [Text.isWellFormed, Text.ofChars, CodePoint.isSurrogate]
  rw [canonical, if_pos hwell]

/-- A text of characters is its own canonical form. -/
@[simp]
theorem canonical_ofString (s : String) : canonical (Text.ofString s) = Text.ofString s :=
  canonical_ofChars _

end ProviderKit.Utf8
