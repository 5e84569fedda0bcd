import ProviderKit.Proofs.Text.Pieces
import ProviderKit.Proofs.Text.Utf8
import ProviderKit.Text.Lossless

/-!
# Bytes that read as a text piece by piece

Bytes read as a text one character or one stray byte at a time (`decodeLossless_char`,
`decodeLossless_stray`). A byte below `0x80` belongs to no longer sequence, so the bytes on its two
sides are read apart (`decodeLossless_append_ascii`), and the pieces of a text that bytes read as
are such texts themselves (`canonical_of_mem_split`).
-/

namespace ProviderKit.Utf8

/-! ## One step -/

/-- Decoding fails at the same byte wherever the count starts. -/
theorem decodeFrom_error_from {bytes : Bytes} {p q : Nat} {fault : Fault}
    (h : decodeFrom p bytes = .error fault) :
    ∃ other, decodeFrom q bytes = .error other ∧ other.byte = fault.byte ∧
      other.position + p = fault.position + q := by
  induction hlength : bytes.length using Nat.strongRecOn generalizing bytes p q fault with
  | ind length ih =>
  subst hlength
  rcases bytes with _ | ⟨b0, rest⟩
  · cases h
  rcases decodeFrom_step q b0 rest with ⟨c, tail, hbytes, hq⟩ | ⟨length, reason, hq⟩
  · rw [hbytes, decodeFrom_utf8EncodeChar_append] at h
    rcases htail : decodeFrom (p + (String.utf8EncodeChar c).length) tail with found | cs
    · rw [htail] at h
      obtain rfl := Except.error.inj h
      have hshorter : tail.length < (b0 :: rest).length := by
        rw [hbytes, List.length_append]
        have := utf8EncodeChar_length_pos c
        omega
      obtain ⟨other, hother, hbyte, hposition⟩ :=
        ih _ hshorter (q := q + (String.utf8EncodeChar c).length) htail rfl
      refine ⟨other, ?_, hbyte, by omega⟩
      rw [hq, hother]
      rfl
    · rw [htail] at h
      cases h
  · refine ⟨_, hq, ?_⟩
    -- Where no character starts, the count has not gone on either.
    rcases decodeFrom_step p b0 rest with ⟨c, tail, hbytes, -⟩ | ⟨length', reason', hp⟩
    · have hgoes := decodeFrom_utf8EncodeChar_append q c tail
      rw [← hbytes, hq] at hgoes
      rcases htail : decodeFrom (q + (String.utf8EncodeChar c).length) tail with found | cs
      · rw [htail] at hgoes
        obtain ⟨valid, -, -, -, hposition, -⟩ := decodeFrom_error htail
        have hhere : q = found.position := congrArg Fault.position (Except.error.inj hgoes)
        have := utf8EncodeChar_length_pos c
        omega
      · rw [htail] at hgoes
        cases hgoes
    · rw [hp] at h
      obtain rfl := Except.error.inj h
      exact ⟨rfl, Nat.add_comm q p⟩

/-- What decodes does so wherever the count starts. -/
theorem decodeFrom_ok_from {bytes : Bytes} {p : Nat} {cs : List Char}
    (h : decodeFrom p bytes = .ok cs) (q : Nat) : decodeFrom q bytes = .ok cs := by
  rw [← flatMap_of_decodeFrom h]
  exact decodeFrom_flatMap cs q

/-- Bytes in front of which a character stands are read after it. -/
theorem decodeLosslessWith_char {fuel : Nat} (hfuel : fuel ≠ 0) (c : Char) (tail : Bytes) :
    decodeLosslessWith fuel (String.utf8EncodeChar c ++ tail) =
      .char c :: decodeLosslessWith fuel tail := by
  obtain ⟨fuel, rfl⟩ := Nat.exists_eq_succ_of_ne_zero hfuel
  have hall := decodeFrom_utf8EncodeChar_append 0 c tail
  rw [Nat.zero_add] at hall
  rw [decodeLosslessWith, decodeLosslessWith, decode, decode]
  rcases htail : decodeFrom 0 tail with fault | cs
  · obtain ⟨other, hother, hbyte, hposition⟩ :=
      decodeFrom_error_from (q := (String.utf8EncodeChar c).length) htail
    obtain ⟨valid, rest, cs, rfl, hat, hvalid⟩ := decodeFrom_error htail
    have hfault : other.position = (String.utf8EncodeChar c).length + valid.length := by omega
    have hfirst : decodeFrom 0 (String.utf8EncodeChar c ++ valid) = .ok (c :: cs) := by
      rw [decodeFrom_utf8EncodeChar_append, decodeFrom_ok_from hvalid]
      rfl
    have htake : (String.utf8EncodeChar c ++ (valid ++ fault.byte :: rest)).take other.position =
        String.utf8EncodeChar c ++ valid := by
      rw [hfault, List.take_length_add_append, List.take_left]
    have hdrop : (String.utf8EncodeChar c ++ (valid ++ fault.byte :: rest)).drop
        (other.position + 1) = rest := by
      rw [hfault, Nat.add_assoc, List.drop_length_add_append, List.drop_length_add_append]
      rfl
    have htake' : (valid ++ fault.byte :: rest).take fault.position = valid := by
      rw [hat, Nat.zero_add, List.take_left]
    have hdrop' : (valid ++ fault.byte :: rest).drop (fault.position + 1) = rest := by
      rw [hat, Nat.zero_add, List.drop_length_add_append]
      rfl
    rw [hall, hother]
    simp only [Functor.map, Except.map, htake, hdrop, htake', hdrop', decode, hfirst, hvalid, hbyte]
    rfl
  · rw [hall, decodeFrom_ok_from htail]
    rfl

/-- A byte with which no character starts is read as it is. -/
theorem decodeLosslessWith_stray {b0 : UInt8} {rest : Bytes}
    (h : ∀ c tail, b0 :: rest ≠ String.utf8EncodeChar c ++ tail) (fuel : Nat) :
    decodeLosslessWith (fuel + 1) (b0 :: rest) = strayByte b0 :: decodeLosslessWith fuel rest := by
  rcases decodeFrom_step 0 b0 rest with ⟨c, tail, hbytes, -⟩ | ⟨length, reason, hfault⟩
  · exact absurd hbytes (h c tail)
  · rw [decodeLosslessWith, decode, hfault]
    rfl

/-- As many stray bytes as there are bytes are enough. -/
theorem decodeLosslessWith_enough {fuel : Nat} {bytes : Bytes} (h : bytes.length ≤ fuel) :
    decodeLosslessWith fuel bytes = decodeLossless bytes := by
  have hmore : ∀ (fuel : Nat) (bytes : Bytes), bytes.length ≤ fuel →
      decodeLosslessWith (fuel + 1) bytes = decodeLosslessWith fuel bytes := by
    intro fuel
    induction fuel with
    | zero =>
      intro bytes hlength
      obtain rfl := List.length_eq_zero_iff.1 (Nat.le_zero.1 hlength)
      rfl
    | succ fuel ih =>
      intro bytes hlength
      rw [decodeLosslessWith, decodeLosslessWith]
      rcases hdecode : decode bytes with fault | text
      · dsimp only
        rw [ih]
        rw [List.length_drop]
        omega
      · rfl
  induction h with
  | refl => rfl
  | step hle ih => rw [← ih, hmore _ _ hle]

/-- A character at the front is read first. -/
theorem decodeLossless_char (c : Char) (tail : Bytes) :
    decodeLossless (String.utf8EncodeChar c ++ tail) = .char c :: decodeLossless tail := by
  have hsome : (String.utf8EncodeChar c ++ tail).length ≠ 0 := by
    have := utf8EncodeChar_length_pos c
    rw [List.length_append]
    omega
  have hlength : tail.length ≤ (String.utf8EncodeChar c ++ tail).length := by
    rw [List.length_append]
    omega
  rw [decodeLossless, decodeLosslessWith_char hsome, decodeLosslessWith_enough hlength]

/-- A byte with which no character starts is read as a stray one. -/
theorem decodeLossless_stray {b0 : UInt8} {rest : Bytes}
    (h : ∀ c tail, b0 :: rest ≠ String.utf8EncodeChar c ++ tail) :
    decodeLossless (b0 :: rest) = strayByte b0 :: decodeLossless rest :=
  decodeLosslessWith_stray h rest.length

/-! ## Piece by piece -/

/-- Behind its first byte a sequence has no byte below `0x80`. -/
theorem le_of_mem_tail_utf8EncodeChar {c : Char} {b0 b : UInt8} {rest : Bytes}
    (h : String.utf8EncodeChar c = b0 :: rest) (hb : b ∈ rest) : 0x80 ≤ b.toNat := by
  have hvalid : c.toNat.isValidChar := c.valid
  have hencode := utf8EncodeChar_ofNat hvalid
  rw [Char.ofNat_toNat, h] at hencode
  have hcontinues : ∀ n : Nat, 0x80 ≤ (UInt8.ofNat (n % 64 + 0x80)).toNat := by
    intro n
    rw [toNat_ofNat_of_lt (by omega)]
    omega
  split at hencode
  · simp_all
  split at hencode
  · obtain ⟨-, rfl⟩ := List.cons.inj hencode
    obtain rfl := List.mem_singleton.1 hb
    exact hcontinues _
  split at hencode
  all_goals
    obtain ⟨-, rfl⟩ := List.cons.inj hencode
    simp only [List.mem_cons, List.not_mem_nil, or_false] at hb
    rcases hb with rfl | hb
    · exact hcontinues _
  · subst hb
    exact hcontinues _
  · rcases hb with rfl | rfl
    · exact hcontinues _
    · exact hcontinues _

/-- What stands before and behind a character below `0x80` is read apart. -/
theorem decodeLossless_append_ascii {c : Char} {b : UInt8} (hc : String.utf8EncodeChar c = [b])
    (hb : b.toNat < 0x80) (front tail : Bytes) :
    decodeLossless (front ++ b :: tail) =
      decodeLossless front ++ .char c :: decodeLossless tail := by
  induction hlength : front.length using Nat.strongRecOn generalizing front with
  | ind length ih =>
  subst hlength
  rcases front with _ | ⟨b0, rest⟩
  · have hchar := decodeLossless_char c tail
    rw [hc] at hchar
    exact hchar
  by_cases hstarts : ∃ d more, b0 :: rest = String.utf8EncodeChar d ++ more
  · obtain ⟨d, more, hbytes⟩ := hstarts
    have hshorter : more.length < (b0 :: rest).length := by
      have := utf8EncodeChar_length_pos d
      rw [hbytes, List.length_append]
      omega
    rw [hbytes, List.append_assoc, decodeLossless_char, decodeLossless_char,
      ih _ hshorter more rfl]
    rfl
  · have hnone : ∀ d more, b0 :: rest ≠ String.utf8EncodeChar d ++ more := fun d more heq =>
      hstarts ⟨d, more, heq⟩
    -- A character that started here would reach up to the byte, which is not part of one.
    have hnone' : ∀ d more, b0 :: (rest ++ b :: tail) ≠ String.utf8EncodeChar d ++ more := by
      intro d more heq
      rcases hd : String.utf8EncodeChar d with _ | ⟨d0, others⟩
      · have := utf8EncodeChar_length_pos d
        rw [hd] at this
        exact absurd this (Nat.lt_irrefl 0)
      rw [hd, List.cons_append] at heq
      obtain ⟨rfl, hbehind⟩ := List.cons.inj heq
      rcases List.append_eq_append_iff.1 hbehind with ⟨between, rfl, hmore⟩ | ⟨between, rfl, -⟩
      · rcases between with _ | ⟨next, between⟩
        · exact hnone d [] (by rw [hd, List.append_nil, List.append_nil])
        · obtain ⟨rfl, -⟩ := List.cons.inj hmore
          have := le_of_mem_tail_utf8EncodeChar hd (b := b) (by simp)
          omega
      · exact hnone d between (by rw [hd, List.cons_append])
    rw [List.cons_append, decodeLossless_stray hnone', decodeLossless_stray hnone,
      ih _ (Nat.lt_succ_self _) rest rfl]
    rfl

/-- A text that bytes read as is canonical. -/
theorem canonical_decodeLossless (bytes : Bytes) :
    canonical (decodeLossless bytes) = decodeLossless bytes := by
  rw [canonical]
  split
  · rfl
  · rw [encodeLossless_decodeLossless]

/-- A canonical text is what its bytes read as. -/
theorem decodeLossless_encodeLossless {t : Text} (h : canonical t = t) :
    decodeLossless (encodeLossless t) = t := by
  have hwell : ∀ t : Text, t.isWellFormed = true → decodeLossless (encodeLossless t) = t := by
    intro t
    induction t with
    | nil => exact fun _ => rfl
    | cons c t ih =>
      intro hwell
      rw [Text.isWellFormed, List.all_cons, Bool.and_eq_true] at hwell
      cases c with
      | surrogate => cases hwell.1
      | char c =>
        calc decodeLossless (encodeLossless (.char c :: t))
            = decodeLossless (String.utf8EncodeChar c ++ encodeLossless t) := rfl
          _ = .char c :: decodeLossless (encodeLossless t) := decodeLossless_char c _
          _ = .char c :: t := by rw [ih hwell.2]
  rw [canonical] at h
  split at h
  next hchars => exact hwell t hchars
  next => exact h

/-- The pieces of a canonical text between characters below `0x80` are canonical. -/
theorem canonical_of_mem_split {c : Char} {b : UInt8} (hc : String.utf8EncodeChar c = [b])
    (hb : b.toNat < 0x80) {t piece : Text} (ht : canonical t = t)
    (hpiece : piece ∈ Text.split (.char c) t) : canonical piece = piece := by
  have hapart : ∀ bytes : Bytes, b ∉ bytes → CodePoint.char c ∉ decodeLossless bytes := by
    intro bytes hnot hmem
    refine hnot ?_
    rw [← encodeLossless_decodeLossless bytes, encodeLossless]
    refine List.mem_flatMap.2 ⟨_, hmem, ?_⟩
    rw [codePointBytes, hc]
    exact List.mem_singleton_self b
  have hpieces : ∀ bytes : Bytes, ∀ piece ∈ Text.split (.char c) (decodeLossless bytes),
      canonical piece = piece := by
    intro bytes
    induction hlength : bytes.length using Nat.strongRecOn generalizing bytes with
    | ind length ih =>
    subst hlength
    intro piece hpiece
    by_cases hmem : b ∈ bytes
    · obtain ⟨front, tail, rfl, hfront⟩ := List.eq_append_cons_of_mem hmem
      rw [decodeLossless_append_ascii hc hb, Text.split_append_cons (hapart front hfront)] at hpiece
      rcases List.mem_cons.1 hpiece with rfl | hrest
      · exact canonical_decodeLossless front
      · refine ih _ ?_ tail rfl piece hrest
        rw [List.length_append, List.length_cons]
        omega
    · rw [Text.split_of_not_mem (hapart bytes hmem)] at hpiece
      rw [List.mem_singleton.1 hpiece]
      exact canonical_decodeLossless bytes
  rw [← decodeLossless_encodeLossless ht] at hpiece
  exact hpieces _ piece hpiece

end ProviderKit.Utf8
