import Mathlib
import ProviderKit.Proofs.Json.RoundTrip
import ProviderKit.Proofs.Package.Discovery

/-!
# What reading gives

Whatever text a document is read from, it is readable: its integers are not too long, its
floating-point numbers are canonical, and its objects hold each key once. So what is written for it
is read as the same document, if reading may go one level deeper: a number that is too large for
its digits is written as a word.
-/

namespace ProviderKit.Json

/-! ## Numbers -/

/-- The value of digits is bounded by their number. -/
theorem digitsValue_lt {t : Text} (h : ∀ c ∈ t, isDigit c = true) :
    Text.digitsValue t < 10 ^ t.length := by
  have hfold : ∀ n : Nat,
      t.foldl (fun n c => 10 * n + (c.toNat - '0'.toNat)) n < (n + 1) * 10 ^ t.length := by
    induction t with
    | nil => intro n; simp
    | cons c t ih =>
      intro n
      have hc : c.toNat - '0'.toNat ≤ 9 := by
        have hdigit := h c List.mem_cons_self
        rcases c with c | s
        · have hc : c.isDigit = true := hdigit
          have hrange : 48 ≤ c.toNat ∧ c.toNat ≤ 57 := by
            simp only [Char.isDigit, Bool.and_eq_true, decide_eq_true_eq] at hc
            exact ⟨hc.1, hc.2⟩
          show c.toNat - 48 ≤ 9
          omega
        · cases hdigit
      have hrest := ih (fun d hd => h d (List.mem_cons_of_mem _ hd))
        (10 * n + (c.toNat - '0'.toNat))
      calc t.foldl (fun n c => 10 * n + (c.toNat - '0'.toNat))
            (10 * n + (c.toNat - '0'.toNat))
          < (10 * n + (c.toNat - '0'.toNat) + 1) * 10 ^ t.length := hrest
        _ ≤ (10 * (n + 1)) * 10 ^ t.length := Nat.mul_le_mul_right _ (by omega)
        _ = (n + 1) * 10 ^ (c :: t).length := by rw [List.length_cons, pow_succ]; ring
  have := hfold 0
  rwa [Nat.zero_add, Nat.one_mul] at this

/-- What is read in front of a point are digits. -/
theorem readInteger_digits (t : Text) : ∀ c ∈ (readInteger t).1, isDigit c = true := by
  unfold readInteger
  split
  · intro c hc
    rw [List.mem_singleton.1 hc]
    rfl
  · intro c hc
    exact List.mem_takeWhile_imp hc

/-- A number that is written in digits or as a word needs at most a level. -/
theorem wordLevels_le (x : Binary64) (room : Nat) : wordLevels x ≤ room + 1 := by
  cases x with
  | finite negative mantissa exponent => exact Nat.zero_le _
  | infinity negative => exact Nat.le_add_left 1 room
  | nan => exact Nat.le_add_left 1 room

/-- A number that is read is readable. -/
theorem readable_of_readNumber {start t rest : Text} {negative : Bool} {j : Json}
    (h : readNumber start negative t = .ok (j, rest)) (room : Nat) : j.Readable (room + 1) := by
  have hdigits := readInteger_digits t
  unfold readNumber at h
  dsimp only at h
  split at h
  · cases h
  split at h
  · split at h
    · cases h
    next hlimit =>
      cases h
      have hlength := Nat.pow_le_pow_right (show 0 < 10 by norm_num) (Nat.not_lt.1 hlimit)
      have hvalue := (digitsValue_lt hdigits).trans_le hlength
      show Int.natAbs _ < _
      cases negative with
      | true => simpa using hvalue
      | false => simpa using hvalue
  · cases h
    exact ⟨Binary64.ofDecimal_canonical _ _ _, wordLevels_le _ room⟩

/-- A scalar that is read is readable. -/
theorem readable_of_readScalar {room : Nat} {t rest : Text} {j : Json}
    (h : readScalar room t = .ok (j, rest)) : j.Readable (room + 1) := by
  have hword : ∀ found, readWord? t = some found → found.1.Readable (room + 1) := by
    intro found hfound
    obtain ⟨⟨word, value⟩, hmem, hsome⟩ := List.exists_of_findSome?_eq_some hfound
    obtain ⟨rest', -, rfl⟩ := Option.map_eq_some_iff.1 hsome
    simp only [words, List.mem_cons, List.not_mem_nil, or_false, Prod.mk.injEq] at hmem
    rcases hmem with ⟨-, rfl⟩ | ⟨-, rfl⟩ | ⟨-, rfl⟩ | ⟨-, rfl⟩ | ⟨-, rfl⟩ | ⟨-, rfl⟩
    · trivial
    · trivial
    · trivial
    all_goals exact ⟨trivial, wordLevels_le _ room⟩
  unfold readScalar at h
  split at h
  next x after hfound =>
    split at h
    · cases h
    · cases h
      exact hword _ hfound
  next found _ hfound =>
    cases h
    exact hword _ hfound
  · split at h
    · exact readable_of_readNumber h room
    · exact readable_of_readNumber h room

/-! ## Members -/

/-- A member that is put among readable ones leaves them readable. -/
theorem readableMembers_insert {room : Nat} {key : Text} {value : Json}
    (hvalue : value.Readable room) {members : List (Text × Json)}
    (h : ReadableMembers room members) :
    ReadableMembers room (insertMember key value members) := by
  induction members with
  | nil => exact ⟨hvalue, trivial⟩
  | cons head members ih =>
    obtain ⟨k, v⟩ := head
    rw [insertMember]
    split
    · exact ⟨hvalue, h.2⟩
    · exact ⟨h.1, ih h.2⟩

/-- The keys with one more are those that there were and the new one. -/
theorem mem_keys_insert {key k : Text} {value : Json} {members : List (Text × Json)} :
    k ∈ (insertMember key value members).map Prod.fst ↔
      k = key ∨ k ∈ members.map Prod.fst := by
  induction members with
  | nil => simp [insertMember]
  | cons head members ih =>
    obtain ⟨k', v⟩ := head
    rw [insertMember]
    split
    next heq =>
      subst heq
      simp
    next => simp only [List.map_cons, List.mem_cons, ih]; tauto

/-- No key is repeated by putting a member among others. -/
theorem nodup_keys_insert {key : Text} {value : Json} {members : List (Text × Json)}
    (h : (members.map Prod.fst).Nodup) :
    ((insertMember key value members).map Prod.fst).Nodup := by
  induction members with
  | nil => simp [insertMember]
  | cons head members ih =>
    obtain ⟨k, v⟩ := head
    rw [List.map_cons, List.nodup_cons] at h
    rw [insertMember]
    split
    · exact List.nodup_cons.2 h
    next hne =>
      refine List.nodup_cons.2 ⟨?_, ih h.2⟩
      rw [mem_keys_insert, not_or]
      exact ⟨hne, h.1⟩

/-- Collapsed members are readable if all of them are, and have different keys. -/
theorem readable_ofMembers {room : Nat} {members : List (Text × Json)}
    (h : ReadableMembers room members) :
    (object (ofMembers members)).Readable (room + 1) := by
  have hfold : ∀ done : List (Text × Json), (object done).Readable (room + 1) →
      (object (members.foldl (fun done member => insertMember member.1 member.2 done)
        done)).Readable (room + 1) := by
    induction members with
    | nil => exact fun _ hdone => hdone
    | cons head members ih =>
      intro done hdone
      obtain ⟨k, v⟩ := head
      exact ih h.2 _ ⟨nodup_keys_insert hdone.1, readableMembers_insert h.1 hdone.2⟩
  exact hfold [] ⟨List.nodup_nil, trivial⟩

/-! ## Documents -/

/-- Everything that is read with some fuel is readable. -/
theorem readable_of_readWith (fuel : Nat) :
    (∀ room t j rest, readValue fuel room t = .ok (j, rest) → j.Readable (room + 1)) ∧
    (∀ room t items rest, readItems fuel room t = .ok (items, rest) →
      ReadableItems (room + 1) items) ∧
    (∀ room t members rest, readMembers fuel room t = .ok (members, rest) →
      ReadableMembers (room + 1) members) := by
  -- The three readers call one another with less fuel. Only a bracket takes a level of the room.
  induction fuel with
  | zero => exact ⟨fun _ _ _ _ h => (by cases h), fun _ _ _ _ h => (by cases h),
      fun _ _ _ _ h => (by cases h)⟩
  | succ fuel ih =>
    obtain ⟨hvalue, hitems, hmembers⟩ := ih
    refine ⟨fun room t j rest h => ?_, fun room t items rest h => ?_,
      fun room t members rest h => ?_⟩
    · rw [readValue.eq_def] at h
      dsimp only at h
      split at h
      · obtain ⟨_, -, h⟩ := except_bind_eq_ok.1 h
        cases h
        trivial
      · split at h
        · cases h
        split at h
        · cases h
          exact ⟨List.nodup_nil, trivial⟩
        · obtain ⟨⟨members, after⟩, hread, h⟩ := except_bind_eq_ok.1 h
          cases h
          exact readable_ofMembers (hmembers _ _ _ _ hread)
      · split at h
        · cases h
        split at h
        · cases h
          trivial
        · obtain ⟨⟨items, after⟩, hread, h⟩ := except_bind_eq_ok.1 h
          cases h
          exact hitems _ _ _ _ hread
      · exact readable_of_readScalar h
    · rw [readItems] at h
      obtain ⟨⟨item, after⟩, hitem, h⟩ := except_bind_eq_ok.1 h
      dsimp only at h
      split at h
      · cases h
        exact ⟨hvalue _ _ _ _ hitem, trivial⟩
      · obtain ⟨⟨others, last⟩, hothers, h⟩ := except_bind_eq_ok.1 h
        cases h
        exact ⟨hvalue _ _ _ _ hitem, hitems _ _ _ _ hothers⟩
      · cases h
    · rw [readMembers.eq_def] at h
      dsimp only at h
      split at h
      · obtain ⟨⟨key, afterKey⟩, -, h⟩ := except_bind_eq_ok.1 h
        dsimp only at h
        split at h
        · obtain ⟨⟨value, after⟩, hread, h⟩ := except_bind_eq_ok.1 h
          dsimp only at h
          split at h
          · cases h
            exact ⟨hvalue _ _ _ _ hread, trivial⟩
          · obtain ⟨⟨others, last⟩, hothers, h⟩ := except_bind_eq_ok.1 h
            cases h
            exact ⟨hvalue _ _ _ _ hread, hmembers _ _ _ _ hothers⟩
          · cases h
        · cases h
      · cases h

/-- A document that is read is readable where reading may go one level deeper. -/
theorem readable_of_read [Interpreter] {t : Text} {j : Json} (h : read t = .ok j) :
    j.Readable (Interpreter.reading + 1) := by
  unfold read readWithin at h
  split at h
  · cases h
  · obtain ⟨⟨value, rest⟩, hread, h⟩ := except_bind_eq_ok.1 h
    dsimp only at h
    split at h
    · cases h
      exact (readable_of_readWith _).1 _ _ _ _ hread
    · cases h

mutual

/-- A readable document is readable where reading may go deeper. -/
theorem Readable.mono : ∀ {room deeper : Nat} {j : Json}, j.Readable room → room ≤ deeper →
    j.Readable deeper
  | _, _, null, _, _ | _, _, bool _, _, _ | _, _, text _, _, _ => trivial
  | _, _, int _, h, _ => h
  | _, _, float _, h, hle => ⟨h.1, h.2.trans hle⟩
  | 0, _, array _, h, _ | 0, _, object _, h, _ => h.elim
  | _ + 1, _ + 1, array _, h, hle => ReadableItems.mono h (Nat.le_of_succ_le_succ hle)
  | _ + 1, _ + 1, object _, h, hle => ⟨h.1, ReadableMembers.mono h.2 (Nat.le_of_succ_le_succ hle)⟩

/-- Readable items are readable where reading may go deeper. -/
theorem ReadableItems.mono : ∀ {room deeper : Nat} {items : List Json}, ReadableItems room items →
    room ≤ deeper → ReadableItems deeper items
  | _, _, [], _, _ => trivial
  | _, _, _ :: _, h, hle => ⟨Readable.mono h.1 hle, ReadableItems.mono h.2 hle⟩

/-- Readable members are readable where reading may go deeper. -/
theorem ReadableMembers.mono : ∀ {room deeper : Nat} {members : List (Text × Json)},
    ReadableMembers room members → room ≤ deeper → ReadableMembers deeper members
  | _, _, [], _, _ => trivial
  | _, _, _ :: _, h, hle => ⟨Readable.mono h.1 hle, ReadableMembers.mono h.2 hle⟩

end

/-! ## Less room -/

/-- The first result is the second, if it does not end for too many levels. -/
def SameUnlessTooDeep {α : Type} (shallow deep : Except Failure α) : Prop :=
  shallow = deep ∨ ∃ failure, shallow = .error failure ∧ failure.cause = .tooDeep

/-- It is the same to go on from results that are the same unless there are too many levels. -/
theorem SameUnlessTooDeep.bind {α β : Type} {shallow deep : Except Failure α}
    {next next' : α → Except Failure β} (h : SameUnlessTooDeep shallow deep)
    (hnext : ∀ a, SameUnlessTooDeep (next a) (next' a)) :
    SameUnlessTooDeep (shallow >>= next) (deep >>= next') := by
  obtain rfl | ⟨failure, rfl, hcause⟩ := h
  · cases shallow with
    | error failure => exact .inl rfl
    | ok a => exact hnext a
  · exact .inr ⟨failure, rfl, hcause⟩

/-- In less room a scalar is the same, unless it is a word that there is no room for. -/
theorem readScalar_shallow {room deeper : Nat} (hle : room ≤ deeper) (t : Text) :
    SameUnlessTooDeep (readScalar room t) (readScalar deeper t) := by
  unfold readScalar
  split
  · by_cases hroom : room = 0
    · rw [if_pos hroom]
      exact .inr ⟨_, rfl, rfl⟩
    · rw [if_neg hroom, if_neg (by omega)]
      exact .inl rfl
  · exact .inl rfl
  · exact .inl rfl

/-- In less room everything that is read with some fuel is the same, unless it has too many levels.
-/
theorem readWith_shallow (fuel : Nat) :
    (∀ room deeper t, room ≤ deeper →
      SameUnlessTooDeep (readValue fuel room t) (readValue fuel deeper t)) ∧
    (∀ room deeper t, room ≤ deeper →
      SameUnlessTooDeep (readItems fuel room t) (readItems fuel deeper t)) ∧
    (∀ room deeper t, room ≤ deeper →
      SameUnlessTooDeep (readMembers fuel room t) (readMembers fuel deeper t)) := by
  induction fuel with
  | zero => exact ⟨fun _ _ _ _ => .inl rfl, fun _ _ _ _ => .inl rfl, fun _ _ _ _ => .inl rfl⟩
  | succ fuel ih =>
    obtain ⟨hvalue, hitems, hmembers⟩ := ih
    refine ⟨fun room deeper t hle => ?_, fun room deeper t hle => ?_,
      fun room deeper t hle => ?_⟩
    · rw [readValue.eq_def, readValue.eq_def]
      dsimp only
      split
      · exact .inl rfl
      · -- A level that there is room for is there where there is more room.
        obtain _ | room := room
        · exact .inr ⟨_, rfl, rfl⟩
        obtain ⟨deeper, rfl⟩ : ∃ n, deeper = n + 1 := ⟨deeper - 1, by omega⟩
        dsimp only
        split
        · exact .inl rfl
        · exact (hmembers _ _ _ (Nat.le_of_succ_le_succ hle)).bind fun _ => .inl rfl
      · obtain _ | room := room
        · exact .inr ⟨_, rfl, rfl⟩
        obtain ⟨deeper, rfl⟩ : ∃ n, deeper = n + 1 := ⟨deeper - 1, by omega⟩
        dsimp only
        split
        · exact .inl rfl
        · exact (hitems _ _ _ (Nat.le_of_succ_le_succ hle)).bind fun _ => .inl rfl
      · exact readScalar_shallow hle t
    · rw [readItems, readItems]
      refine (hvalue _ _ _ hle).bind fun read => ?_
      obtain ⟨item, after⟩ := read
      dsimp only
      split
      · exact .inl rfl
      · exact (hitems _ _ _ hle).bind fun _ => .inl rfl
      · exact .inl rfl
    · rw [readMembers.eq_def, readMembers.eq_def]
      dsimp only
      split
      · refine SameUnlessTooDeep.bind (.inl rfl) fun read => ?_
        obtain ⟨key, afterKey⟩ := read
        dsimp only
        split
        · refine (hvalue _ _ _ hle).bind fun read => ?_
          obtain ⟨value, after⟩ := read
          dsimp only
          split
          · exact .inl rfl
          · exact (hmembers _ _ _ hle).bind fun _ => .inl rfl
          · exact .inl rfl
        · exact .inl rfl
      · exact .inl rfl

/-- In less room a document is the same, unless it has too many levels. -/
theorem readWithin_shallow {room deeper : Nat} (hle : room ≤ deeper) (t : Text) :
    SameUnlessTooDeep (readWithin room t) (readWithin deeper t) := by
  unfold readWithin
  split
  · exact .inl rfl
  · exact ((readWith_shallow _).1 _ _ _ hle).bind fun _ => .inl rfl

/-- A document that is read is read where reading may go deeper. -/
theorem readWithin_mono {room deeper : Nat} (hle : room ≤ deeper) {t : Text} {j : Json}
    (h : readWithin room t = .ok j) : readWithin deeper t = .ok j := by
  obtain heq | ⟨failure, hfails, -⟩ := readWithin_shallow hle t
  · rw [← heq, h]
  · rw [hfails] at h
    cases h

/-- A readable document is read from what is written for it, with the end of a line behind it. -/
theorem readWithin_write {room : Nat} {j : Json} (h : j.Readable room) :
    readWithin room (write j ++ "\n") = .ok j := by
  obtain ⟨c, t, hwrite, hspace, -, hmark⟩ := writeAt_starts 0 h
  have hread := readsBack_of_readable room j h 0 ("\n" : Text) (atEnd_newLine 0 [])
    (2 * (writeAt 0 j ++ "\n").length + 2) (by rw [List.length_append]; omega)
  unfold write readWithin
  rw [hwrite] at hread ⊢
  split
  next heq => exact absurd (List.cons.inj heq).1 hmark
  next =>
    rw [List.cons_append, skipSpace_cons hspace, ← List.cons_append, hread]
    rfl

end ProviderKit.Json
