import Mathlib
import ProviderKit.Proofs.Json.Number
import ProviderKit.Proofs.Json.Quoted

/-!
# Documents are read as they were written

`Readable` describes what reading can give that may go a number of levels deep: integers that are
not too long, canonical floating-point numbers, objects without repeated keys, and no more levels
than that. Reading gives nothing else (`readable_of_read`), and what is readable is read back from
what is written (`read_write`).
-/

namespace ProviderKit.Json

mutual

/-- The document can be the result of reading that may go so many levels deep. -/
def Readable : Nat → Json → Prop
  | _, null | _, bool _ | _, text _ => True
  | _, int n => n.natAbs < 10 ^ digitLimit
  | room, float x => x.Canonical ∧ wordLevels x ≤ room
  | 0, array _ | 0, object _ => False
  | room + 1, array items => ReadableItems room items
  | room + 1, object members => (members.map Prod.fst).Nodup ∧ ReadableMembers room members

/-- The items of an array can be the result of reading. -/
def ReadableItems : Nat → List Json → Prop
  | _, [] => True
  | room, item :: items => item.Readable room ∧ ReadableItems room items

/-- The values of the members of an object can be the result of reading. -/
def ReadableMembers : Nat → List (Text × Json) → Prop
  | _, [] => True
  | room, (_, value) :: members => value.Readable room ∧ ReadableMembers room members

end

/-! ## Space -/

/-- Nothing is skipped in front of a code point that is no space. -/
theorem skipSpace_cons {c : CodePoint} (h : isSpace c = false) (t : Text) :
    skipSpace (c :: t) = c :: t := by
  unfold skipSpace
  rw [List.dropWhile_cons, h]
  rfl

/-- The beginning of a line is skipped. -/
theorem skipSpace_newLine (depth : Nat) (t : Text) :
    skipSpace (newLine depth ++ t) = skipSpace t := by
  have hall : ∀ c ∈ newLine depth, isSpace c = true := by
    intro c hc
    rcases List.mem_cons.1 hc with rfl | hc
    · rfl
    · rw [List.eq_of_mem_replicate hc]
      rfl
  exact List.dropWhile_append_of_pos hall

/-- A value ends at the end of a line. -/
theorem atEnd_newLine (depth : Nat) (t : Text) : AtEnd (newLine depth ++ t) := by
  intro c hc
  cases hc
  exact .inr (.inr (.inr rfl))

/-- A value ends at a comma. -/
theorem atEnd_comma (t : Text) : AtEnd (.char ',' :: t) := by
  intro c hc
  cases hc
  exact .inl rfl

/-! ## How values start -/

/-- The code point starts a number or a word. -/
def startsScalar (c : CodePoint) : Bool := isDigit c || ("-ntfNI" : Text).contains c

/-- What starts a number or a word starts nothing else. -/
theorem startsScalar_ne {c : CodePoint} (h : startsScalar c = true) (other : CodePoint)
    (hother : startsScalar other = false) : c ≠ other := by
  rintro rfl
  rw [h] at hother
  cases hother

/-- What starts a number or a word is no space. -/
theorem startsScalar_notSpace {c : CodePoint} (h : startsScalar c = true) : isSpace c = false := by
  unfold isSpace
  simp [startsScalar_ne h (.char ' ') (by decide), startsScalar_ne h (.char '\t') (by decide),
    startsScalar_ne h (.char '\n') (by decide), startsScalar_ne h (.char '\r') (by decide)]

/-- What starts like a number or a word is read as one. -/
theorem readValue_scalar {c : CodePoint} (h : startsScalar c = true) (fuel room : Nat) (t : Text) :
    readValue (fuel + 1) room (c :: t) = readScalar room (c :: t) := by
  rw [readValue]
  · exact fun _ heq => startsScalar_ne h (.char '"') (by decide) (List.cons.inj heq).1
  · exact fun _ heq => startsScalar_ne h (.char '{') (by decide) (List.cons.inj heq).1
  · exact fun _ heq => startsScalar_ne h (.char '[') (by decide) (List.cons.inj heq).1

/-- Integers and floating-point numbers start as numbers or words do. -/
theorem writeAt_number_starts (depth : Nat) {j : Json}
    (hj : (∃ n, j = .int n) ∨ (∃ x, j = .float x ∧ x.Canonical)) :
    ∃ c t, writeAt depth j = c :: t ∧ startsScalar c = true := by
  have hdigit : ∀ c : Char, c.isDigit = true → startsScalar (.char c) = true := by
    intro c hc
    show (c.isDigit || _) = true
    rw [hc]
    rfl
  rcases hj with ⟨n, rfl⟩ | ⟨x, rfl, hx⟩
  · unfold writeAt
    cases n with
    | ofNat k =>
      rcases hdigits : Nat.toDigits 10 k with _ | ⟨c, cs⟩
      · exact absurd hdigits Nat.toDigits_ne_nil
      · have hmem : c ∈ Nat.toDigits 10 k := by
          rw [hdigits]
          exact List.mem_cons_self
        refine ⟨.char c, Text.ofChars cs, ?_, hdigit c ?_⟩
        · show Text.ofChars (Nat.toDigits 10 k) = _
          rw [hdigits]
          rfl
        · exact Nat.isDigit_of_mem_toDigits (by norm_num) (by norm_num) hmem
    | negSucc k => exact ⟨_, _, rfl, by decide⟩
  · unfold writeAt
    cases x with
    | finite negative m e =>
      obtain ⟨s, htext, hs, -⟩ := magnitudeText_spelling hx
      obtain ⟨c, cs, hcs, hc⟩ := spelling_head hs
      cases negative with
      | true => exact ⟨_, _, rfl, by decide⟩
      | false =>
        refine ⟨.char c, Text.ofChars cs, ?_, hdigit c hc⟩
        show Text.ofChars (Binary64.magnitudeText m e) = _
        rw [htext, hcs]
        rfl
    | infinity negative =>
      cases negative with
      | true => exact ⟨_, _, rfl, by decide⟩
      | false => exact ⟨_, _, rfl, by decide⟩
    | nan => exact ⟨_, _, rfl, by decide⟩

/-- A value starts with something that is no space, no closing bracket and no byte order mark. -/
theorem writeAt_starts (depth : Nat) {room : Nat} {j : Json} (hj : j.Readable room) :
    ∃ c t, writeAt depth j = c :: t ∧ isSpace c = false ∧ c ≠ .char ']' ∧
      c ≠ .char '\uFEFF' := by
  have hscalar : (∃ c t, writeAt depth j = c :: t ∧ startsScalar c = true) →
      ∃ c t, writeAt depth j = c :: t ∧ isSpace c = false ∧ c ≠ .char ']' ∧
        c ≠ .char '\uFEFF' := by
    rintro ⟨c, t, hwrite, hc⟩
    exact ⟨c, t, hwrite, startsScalar_notSpace hc, startsScalar_ne hc (.char ']') (by decide),
      startsScalar_ne hc (.char '\uFEFF') (by decide)⟩
  cases j with
  | null => exact hscalar ⟨_, _, rfl, by decide⟩
  | bool b =>
    cases b with
    | true => exact hscalar ⟨_, _, rfl, by decide⟩
    | false => exact hscalar ⟨_, _, rfl, by decide⟩
  | int n => exact hscalar (writeAt_number_starts depth (.inl ⟨n, rfl⟩))
  | float x => exact hscalar (writeAt_number_starts depth (.inr ⟨x, rfl, hj.1⟩))
  | text t => exact ⟨_, _, rfl, by decide, by decide, by decide⟩
  | array items => cases items <;> exact ⟨_, _, rfl, by decide, by decide, by decide⟩
  | object members => cases members <;> exact ⟨_, _, rfl, by decide, by decide, by decide⟩

/-! ## Members -/

/-- A key that is new goes to the end. -/
theorem insertMember_new {key : Text} (value : Json) {members : List (Text × Json)}
    (h : key ∉ members.map Prod.fst) :
    insertMember key value members = members ++ [(key, value)] := by
  induction members with
  | nil => rfl
  | cons head members ih =>
    obtain ⟨k, v⟩ := head
    rw [List.map_cons, List.mem_cons, not_or] at h
    rw [insertMember, if_neg (Ne.symm h.1), ih h.2]
    rfl

/-- Members with different keys are what they are collapsed into. -/
theorem ofMembers_nodup {members : List (Text × Json)} (h : (members.map Prod.fst).Nodup) :
    ofMembers members = members := by
  have hfold : ∀ done : List (Text × Json), ((done ++ members).map Prod.fst).Nodup →
      members.foldl (fun done member => insertMember member.1 member.2 done) done =
        done ++ members := by
    clear h
    induction members with
    | nil => intro done _; exact (List.append_nil done).symm
    | cons head members ih =>
      intro done hdone
      obtain ⟨k, v⟩ := head
      rw [List.foldl_cons]
      have hnew : k ∉ done.map Prod.fst := by
        rw [List.map_append, List.nodup_append'] at hdone
        intro hmem
        exact hdone.2.2 hmem (by simp)
      show members.foldl _ (insertMember k v done) = _
      rw [insertMember_new v hnew, ih _ (by simpa using hdone), List.append_assoc]
      rfl
  exact hfold [] h

/-! ## Reading back -/

/-- The opening quote of a text and its closing one are read with the text. -/
theorem quote_append (t rest : Text) :
    quote t ++ rest = .char '"' :: (t.flatMap escapeCodePoint ++ .char '"' :: rest) := by
  unfold quote
  simp only [List.cons_append, List.append_assoc, List.nil_append]

/-- An item is followed by the next one, or by the end of its array. -/
theorem readItems_step {fuel room : Nat} {t rest : Text} {item : Json}
    (h : readValue fuel room t = .ok (item, rest)) :
    (∀ after, skipSpace rest = .char ']' :: after →
      readItems (fuel + 1) room t = .ok ([item], after)) ∧
    (∀ after items last, skipSpace rest = .char ',' :: after →
      readItems fuel room (skipSpace after) = .ok (items, last) →
      readItems (fuel + 1) room t = .ok (item :: items, last)) := by
  constructor
  · intro after hafter
    simp only [readItems, h, bind, Except.bind, hafter]
    rfl
  · intro after items last hafter hitems
    simp only [readItems, h, bind, Except.bind, hafter, hitems]
    rfl

/-- A member is followed by the next one, or by the end of its object. -/
theorem readMembers_step {fuel room : Nat} {key t rest : Text} {value : Json}
    (h : readValue fuel room (skipSpace t) = .ok (value, rest)) :
    (∀ after, skipSpace rest = .char '}' :: after →
      readMembers (fuel + 1) room (quote key ++ .char ':' :: t) = .ok ([(key, value)], after)) ∧
    (∀ after members last, skipSpace rest = .char ',' :: after →
      readMembers fuel room (skipSpace after) = .ok (members, last) →
      readMembers (fuel + 1) room (quote key ++ .char ':' :: t) =
        .ok ((key, value) :: members, last)) := by
  have hcolon : skipSpace (.char ':' :: t) = .char ':' :: t := skipSpace_cons (by decide) t
  rw [quote_append]
  constructor
  · intro after hafter
    simp only [readMembers, readString_flatMap, hcolon, h, bind, Except.bind, hafter]
    rfl
  · intro after members last hafter hmembers
    simp only [readMembers, readString_flatMap, hcolon, h, bind, Except.bind, hafter, hmembers]
    rfl

/-- A value that is written in front of an end is read up to that end, with as much fuel as it has
code points and the given levels. -/
def ReadsBack (room : Nat) (j : Json) : Prop :=
  ∀ (depth : Nat) (rest : Text), AtEnd rest → ∀ fuel, (writeAt depth j).length ≤ fuel →
    readValue fuel room (writeAt depth j ++ rest) = .ok (j, rest)

/-- The items of an array are read up to its end. -/
def ItemsReadBack (room : Nat) (items : List Json) : Prop :=
  items ≠ [] → ∀ (depth outer : Nat) (rest : Text) (fuel : Nat),
    (writeItems depth items).length ≤ fuel →
    readItems fuel room
        (skipSpace (writeItems depth items ++ (newLine outer ++ .char ']' :: rest))) =
      .ok (items, rest)

/-- The members of an object are read up to its end. -/
def MembersReadBack (room : Nat) (members : List (Text × Json)) : Prop :=
  members ≠ [] → ∀ (depth outer : Nat) (rest : Text) (fuel : Nat),
    (writeMembers depth members).length ≤ fuel →
    readMembers fuel room
      (skipSpace (writeMembers depth members ++ (newLine outer ++ .char '}' :: rest))) =
      .ok (members, rest)

/-- What starts as a number or a word does is read back if it is as a scalar. -/
theorem readsBack_scalar {room : Nat} {j : Json}
    (hstarts : ∀ depth, ∃ c t, writeAt depth j = c :: t ∧ startsScalar c = true)
    (h : ∀ (depth : Nat) (rest : Text), AtEnd rest →
      readScalar room (writeAt depth j ++ rest) = .ok (j, rest)) : j.ReadsBack room := by
  intro depth rest hrest fuel hfuel
  have hread := h depth rest hrest
  obtain ⟨c, t, hwrite, hc⟩ := hstarts depth
  rw [hwrite] at hfuel hread ⊢
  rcases fuel with _ | fuel
  · simp at hfuel
  · rw [List.cons_append, readValue_scalar hc]
    exact hread

/-- A text is read back. -/
theorem readsBack_text (room : Nat) (t : Text) : (text t).ReadsBack room := by
  intro depth rest hrest fuel hfuel
  rcases fuel with _ | fuel
  · simp [writeAt, quote] at hfuel
  · rw [writeAt, quote_append]
    simp only [readValue, readString_flatMap, bind, Except.bind]
    rfl

/-- An array with items is read as its items. -/
theorem readValue_items {fuel room : Nat} {t after t' : Text} {c : CodePoint} {items : List Json}
    (hskip : skipSpace t = c :: t') (hc : c ≠ .char ']')
    (h : readItems fuel room (c :: t') = .ok (items, after)) :
    readValue (fuel + 1) (room + 1) (.char '[' :: t) = .ok (.array items, after) := by
  simp only [readValue, hskip]
  split
  next heq =>
    cases heq
    exact absurd rfl hc
  next => simp only [h, bind, Except.bind]; rfl

/-- An object with members is read as its members, with repeated keys collapsed. -/
theorem readValue_members {fuel room : Nat} {t after t' : Text} {c : CodePoint}
    {members : List (Text × Json)} (hskip : skipSpace t = c :: t') (hc : c ≠ .char '}')
    (h : readMembers fuel room (c :: t') = .ok (members, after)) :
    readValue (fuel + 1) (room + 1) (.char '{' :: t) =
      .ok (.object (ofMembers members), after) := by
  simp only [readValue, hskip]
  split
  next heq =>
    cases heq
    exact absurd rfl hc
  next => simp only [h, bind, Except.bind]; rfl

/-! ## Items and members in a row -/

/-- What is written behind an item. -/
def itemsAfter (depth : Nat) : List Json → Text
  | [] => []
  | items => .char ',' :: writeItems depth items

/-- What is written behind a member. -/
def membersAfter (depth : Nat) : List (Text × Json) → Text
  | [] => []
  | members => .char ',' :: writeMembers depth members

/-- Items are written one after the other. -/
theorem writeItems_cons (depth : Nat) (item : Json) (items : List Json) :
    writeItems depth (item :: items) =
      newLine depth ++ (writeAt depth item ++ itemsAfter depth items) := by
  cases items with
  | nil => simp [writeItems, itemsAfter]
  | cons next items => simp [writeItems, itemsAfter, Text.ofString, Text.ofChars]

/-- Members are written one after the other. -/
theorem writeMembers_cons (depth : Nat) (key : Text) (value : Json)
    (members : List (Text × Json)) :
    writeMembers depth ((key, value) :: members) =
      newLine depth ++ (quote key ++ (.char ':' :: .char ' ' ::
        (writeAt depth value ++ membersAfter depth members))) := by
  cases members with
  | nil => simp [writeMembers, membersAfter, Text.ofString, Text.ofChars]
  | cons next members => simp [writeMembers, membersAfter, Text.ofString, Text.ofChars]

/-- Behind the beginning of its line, an item is written with what follows it. -/
theorem skipSpace_writeItems (depth : Nat) {room : Nat} {item : Json} (h : item.Readable room)
    (items : List Json) (t : Text) :
    skipSpace (writeItems depth (item :: items) ++ t) =
      writeAt depth item ++ (itemsAfter depth items ++ t) := by
  obtain ⟨c, rest, hwrite, hspace, -⟩ := writeAt_starts depth h
  rw [writeItems_cons, List.append_assoc, skipSpace_newLine, List.append_assoc, hwrite,
    List.cons_append, skipSpace_cons hspace]

/-- Behind the beginning of its line, a member is written with what follows it. -/
theorem skipSpace_writeMembers (depth : Nat) (key : Text) (value : Json)
    (members : List (Text × Json)) (t : Text) :
    skipSpace (writeMembers depth ((key, value) :: members) ++ t) =
      quote key ++ .char ':' :: .char ' ' ::
        (writeAt depth value ++ (membersAfter depth members ++ t)) := by
  rw [writeMembers_cons, List.append_assoc, skipSpace_newLine, List.append_assoc, quote_append,
    skipSpace_cons (by decide)]
  simp only [List.cons_append, List.append_assoc, quote_append]

/-- The items of an array are read back if the first one is and the others are. -/
theorem itemsReadBack_cons {room : Nat} {item : Json} {items : List Json}
    (hreadable : item.Readable room) (hitem : item.ReadsBack room)
    (hitems : ItemsReadBack room items) : ItemsReadBack room (item :: items) := by
  intro _ depth outer rest fuel hfuel
  rw [writeItems_cons, List.length_append, List.length_append] at hfuel
  have hline : 0 < (newLine depth).length := Nat.succ_pos _
  obtain ⟨fuel, rfl⟩ : ∃ n, fuel = n + 1 := ⟨fuel - 1, by omega⟩
  rw [skipSpace_writeItems depth hreadable]
  cases items with
  | nil =>
    have hread := hitem depth _ (atEnd_newLine outer (.char ']' :: rest)) fuel (by omega)
    exact (readItems_step hread).1 rest
      (by rw [skipSpace_newLine, skipSpace_cons (by decide)])
  | cons next items =>
    have hafter : (itemsAfter depth (next :: items)).length =
        (writeItems depth (next :: items)).length + 1 := rfl
    have hread := hitem depth _ (atEnd_comma (writeItems depth (next :: items) ++
      (newLine outer ++ .char ']' :: rest))) fuel (by omega)
    exact (readItems_step hread).2 _ _ rest (skipSpace_cons (by decide) _)
      (hitems (by simp) depth outer rest fuel (by omega))

/-- The members of an object are read back if the first value is and the others are. -/
theorem membersReadBack_cons {room : Nat} {key : Text} {value : Json}
    {members : List (Text × Json)} (hreadable : value.Readable room)
    (hvalue : value.ReadsBack room) (hmembers : MembersReadBack room members) :
    MembersReadBack room ((key, value) :: members) := by
  intro _ depth outer rest fuel hfuel
  simp only [writeMembers_cons, List.length_append, List.length_cons] at hfuel
  have hline : 0 < (newLine depth).length := Nat.succ_pos _
  obtain ⟨fuel, rfl⟩ : ∃ n, fuel = n + 1 := ⟨fuel - 1, by omega⟩
  obtain ⟨c, t, hwrite, hspace, -⟩ := writeAt_starts depth hreadable
  have hskip : ∀ after, skipSpace (.char ' ' :: (writeAt depth value ++ after)) =
      writeAt depth value ++ after := by
    intro after
    rw [hwrite, List.cons_append]
    exact skipSpace_cons hspace _
  rw [skipSpace_writeMembers]
  cases members with
  | nil =>
    have hread := hvalue depth _ (atEnd_newLine outer (.char '}' :: rest)) fuel (by omega)
    rw [← hskip] at hread
    exact (readMembers_step hread).1 rest
      (by rw [skipSpace_newLine, skipSpace_cons (by decide)])
  | cons next members =>
    have hafter : (membersAfter depth (next :: members)).length =
        (writeMembers depth (next :: members)).length + 1 := rfl
    have hread := hvalue depth _ (atEnd_comma (writeMembers depth (next :: members) ++
      (newLine outer ++ .char '}' :: rest))) fuel (by omega)
    rw [← hskip] at hread
    exact (readMembers_step hread).2 _ _ rest (skipSpace_cons (by decide) _)
      (hmembers (by simp) depth outer rest fuel (by omega))

/-- An array is read back if its items are. -/
theorem readsBack_array {room : Nat} {items : List Json} (hreadable : ReadableItems room items)
    (h : ItemsReadBack room items) : (array items).ReadsBack (room + 1) := by
  intro depth rest hrest fuel hfuel
  cases items with
  | nil =>
    obtain ⟨fuel, rfl⟩ : ∃ n, fuel = n + 1 := ⟨fuel - 1, by
      have : (writeAt depth (array [])).length = 2 := rfl
      omega⟩
    show readValue (fuel + 1) (room + 1) (.char '[' :: .char ']' :: rest) = _
    simp only [readValue, skipSpace_cons (show isSpace (.char ']') = false by decide)]
  | cons item items =>
    have hsplit : ∀ after, writeAt depth (array (item :: items)) ++ after =
        .char '[' :: (writeItems (depth + 1) (item :: items) ++
          (newLine depth ++ .char ']' :: after)) := by
      intro after
      simp [writeAt, Text.ofString, Text.ofChars]
    have hlength := congrArg List.length (hsplit [])
    simp only [List.append_nil, List.length_cons, List.length_append] at hlength
    obtain ⟨fuel, rfl⟩ : ∃ n, fuel = n + 1 := ⟨fuel - 1, by omega⟩
    obtain ⟨c, t, hwrite, -, hclose, -⟩ := writeAt_starts (depth + 1) hreadable.1
    have hread := h (by simp) (depth + 1) depth rest fuel (by omega)
    have hskip := skipSpace_writeItems (depth + 1) hreadable.1 items
      (newLine depth ++ .char ']' :: rest)
    rw [hwrite, List.cons_append] at hskip
    rw [hskip] at hread
    rw [hsplit]
    exact readValue_items hskip hclose hread

/-- An object with different keys is read back if its members are. -/
theorem readsBack_object {room : Nat} {members : List (Text × Json)}
    (hkeys : (members.map Prod.fst).Nodup) (h : MembersReadBack room members) :
    (object members).ReadsBack (room + 1) := by
  intro depth rest hrest fuel hfuel
  cases members with
  | nil =>
    obtain ⟨fuel, rfl⟩ : ∃ n, fuel = n + 1 := ⟨fuel - 1, by
      have : (writeAt depth (object [])).length = 2 := rfl
      omega⟩
    show readValue (fuel + 1) (room + 1) (.char '{' :: .char '}' :: rest) = _
    simp only [readValue, skipSpace_cons (show isSpace (.char '}') = false by decide)]
  | cons member members =>
    obtain ⟨key, value⟩ := member
    have hsplit : ∀ after, writeAt depth (object ((key, value) :: members)) ++ after =
        .char '{' :: (writeMembers (depth + 1) ((key, value) :: members) ++
          (newLine depth ++ .char '}' :: after)) := by
      intro after
      simp [writeAt, Text.ofString, Text.ofChars]
    have hlength := congrArg List.length (hsplit [])
    simp only [List.append_nil, List.length_cons, List.length_append] at hlength
    obtain ⟨fuel, rfl⟩ : ∃ n, fuel = n + 1 := ⟨fuel - 1, by omega⟩
    have hread := h (by simp) (depth + 1) depth rest fuel (by omega)
    have hskip := skipSpace_writeMembers (depth + 1) key value members
      (newLine depth ++ .char '}' :: rest)
    rw [quote_append] at hskip
    rw [hskip] at hread
    rw [hsplit, ← ofMembers_nodup hkeys]
    conv_lhs => rw [ofMembers_nodup hkeys]
    exact readValue_members hskip (by decide) hread

mutual

/-- What is readable is read back. -/
theorem readsBack_of_readable : ∀ (room : Nat) (j : Json), j.Readable room → j.ReadsBack room
  | room, null, _ => readsBack_scalar (fun _ => ⟨_, _, rfl, by decide⟩)
      fun _ rest _ => (readScalar_word room rest).1
  | room, bool true, _ => readsBack_scalar (fun _ => ⟨_, _, rfl, by decide⟩)
      fun _ rest _ => (readScalar_word room rest).2.1
  | room, bool false, _ => readsBack_scalar (fun _ => ⟨_, _, rfl, by decide⟩)
      fun _ rest _ => (readScalar_word room rest).2.2.1
  | room, int n, h => readsBack_scalar (fun depth => writeAt_number_starts depth (.inl ⟨n, rfl⟩))
      fun _ _ hrest => readScalar_ofInt h hrest room
  | _, float x, h => readsBack_scalar
      (fun depth => writeAt_number_starts depth (.inr ⟨x, rfl, h.1⟩))
      fun _ _ hrest => readScalar_float h.1 hrest h.2
  | room, text t, _ => readsBack_text room t
  | 0, array _, h | 0, object _, h => h.elim
  | room + 1, array items, h => readsBack_array h (itemsReadBack_of_readable room items h)
  | room + 1, object members, h =>
      readsBack_object h.1 (membersReadBack_of_readable room members h.2)

/-- Readable items are read back. -/
theorem itemsReadBack_of_readable : ∀ (room : Nat) (items : List Json),
    ReadableItems room items → ItemsReadBack room items
  | _, [], _ => fun h => absurd rfl h
  | room, item :: items, h => itemsReadBack_cons h.1 (readsBack_of_readable room item h.1)
      (itemsReadBack_of_readable room items h.2)

/-- Readable members are read back. -/
theorem membersReadBack_of_readable : ∀ (room : Nat) (members : List (Text × Json)),
    ReadableMembers room members → MembersReadBack room members
  | _, [], _ => fun h => absurd rfl h
  | room, (_, value) :: members, h => membersReadBack_cons h.1
      (readsBack_of_readable room value h.1) (membersReadBack_of_readable room members h.2)

end

end ProviderKit.Json
