import Mathlib
import ProviderKit.Text.Lines
import ProviderKit.Proofs.Json.Readable
import ProviderKit.Proofs.Text.Utf8

/-!
# Written documents as files

The only line ends in what is written are those between items and members: a carriage return inside
a string is escaped. So a file with a written document has the same text when it is read with its
line ends made equal.
-/

namespace ProviderKit

/-- A text without carriage returns keeps its line ends. -/
theorem Text.normalizeNewlines_eq {t : Text} (h : .char '\r' ∉ t) : t.normalizeNewlines = t := by
  induction t with
  | nil => rfl
  | cons c t ih =>
    rw [List.mem_cons, not_or] at h
    rw [Text.normalizeNewlines, ih h.2]
    · exact fun _ heq _ => h.1 heq.symm
    · exact fun heq => h.1 heq.symm

namespace Json

/-- Two texts without carriage returns have none together. -/
theorem noReturn_append {s t : Text} (hs : .char '\r' ∉ s) (ht : .char '\r' ∉ t) :
    .char '\r' ∉ s ++ t := by
  rw [List.mem_append, not_or]
  exact ⟨hs, ht⟩

/-- The escape of a code point has no carriage return. -/
theorem escapeCodePoint_noReturn (c : CodePoint) : .char '\r' ∉ escapeCodePoint c := by
  unfold escapeCodePoint
  split
  · decide
  · decide
  · decide
  · decide
  · decide
  · decide
  · decide
  next hreturn _ _ _ =>
    split
    next hcontrol =>
      rcases c with c | s
      · have hsmall : c.toNat < 0x20 := hcontrol
        rw [show (CodePoint.char c).toNat = c.toNat from rfl, hexDigits_control hsmall]
        have hdigits : ∀ n < 0x20, CodePoint.char '\r' ∉ Text.ofChars
            ['\\', 'u', '0', '0', Nat.digitChar (n / 16), Nat.digitChar (n % 16)] := by decide
        exact hdigits _ hsmall
      · exact absurd hcontrol (by show ¬ 0xD800 + s.val < 0x20; omega)
    next =>
      intro hmem
      exact hreturn (List.mem_singleton.1 hmem).symm

/-- A quoted text has no carriage return. -/
theorem quote_noReturn (t : Text) : .char '\r' ∉ quote t := by
  unfold quote
  intro hmem
  rcases List.mem_cons.1 hmem with heq | hmem
  · exact absurd heq (by decide)
  rcases List.mem_append.1 hmem with hmem | hmem
  · obtain ⟨c, -, hc⟩ := List.mem_flatMap.1 hmem
    exact escapeCodePoint_noReturn c hc
  · exact absurd hmem (by decide)

/-- The beginning of a line has no carriage return. -/
theorem newLine_noReturn (depth : Nat) : .char '\r' ∉ newLine depth := by
  intro hmem
  rcases List.mem_cons.1 hmem with heq | hmem
  · exact absurd heq (by decide)
  · exact absurd (List.eq_of_mem_replicate hmem) (by decide)

/-- Digits and the signs of a number are no carriage return. -/
theorem ofChars_noReturn {cs : List Char} (h : ∀ c ∈ cs, c.isDigit = true ∨ c ∈ ".e+-".toList) :
    .char '\r' ∉ Text.ofChars cs := by
  intro hmem
  obtain ⟨c, hc, heq⟩ := List.mem_map.1 hmem
  cases heq
  rcases h _ hc with hdigit | hsign
  · exact absurd hdigit (by decide)
  · exact absurd hsign (by decide)

/-- A spelled number has no carriage return. -/
theorem spelling_noReturn {s : Spelling} (hs : s.WellFormed) :
    .char '\r' ∉ Text.ofChars s.text := by
  refine ofChars_noReturn fun c hc => ?_
  unfold Spelling.text at hc
  rcases List.mem_append.1 hc with hc | hc
  · rcases List.mem_append.1 hc with hc | hc
    · exact .inl (hs.whole_digits c hc)
    · unfold Spelling.fractionText at hc
      split at hc
      · cases hc
      · rcases List.mem_cons.1 hc with rfl | hc
        · exact .inr (by decide)
        · exact .inl (hs.fraction_digits c hc)
  · unfold Spelling.exponentText at hc
    split at hc
    · cases hc
    next negative digits hexponent =>
      rcases List.mem_cons.1 hc with rfl | hc
      · exact .inr (by decide)
      rcases List.mem_cons.1 hc with rfl | hc
      · cases negative <;> exact .inr (by decide)
      · exact .inl ((hs.exponent_digits negative digits hexponent).2 c hc)

/-- A number has no carriage return. -/
theorem number_noReturn (depth : Nat) {j : Json}
    (hj : (∃ n, j = .int n) ∨ (∃ x, j = .float x ∧ x.Canonical)) :
    .char '\r' ∉ writeAt depth j := by
  have hdigits : ∀ n : Nat, .char '\r' ∉ Text.ofNat n := fun n =>
    ofChars_noReturn fun c hc => .inl (Nat.isDigit_of_mem_toDigits (by norm_num) (by norm_num) hc)
  have hminus : ∀ t : Text, .char '\r' ∉ t → .char '\r' ∉ (.char '-' :: t : Text) := by
    intro t ht hmem
    rcases List.mem_cons.1 hmem with heq | hmem
    · exact absurd heq (by decide)
    · exact ht hmem
  rcases hj with ⟨n, rfl⟩ | ⟨x, rfl, hx⟩
  · cases n with
    | ofNat k => exact hdigits k
    | negSucc k => exact hminus _ (hdigits (k + 1))
  · cases x with
    | finite negative m e =>
      obtain ⟨s, htext, hs, -⟩ := magnitudeText_spelling hx
      show .char '\r' ∉ (if negative then [.char '-'] else []) ++
        Text.ofChars (Binary64.magnitudeText m e)
      rw [htext]
      cases negative with
      | true => exact hminus _ (spelling_noReturn hs)
      | false => exact spelling_noReturn hs
    | infinity negative =>
      cases negative with
      | true => exact show .char '\r' ∉ ("-Infinity" : Text) by decide
      | false => exact show .char '\r' ∉ ("Infinity" : Text) by decide
    | nan => exact show .char '\r' ∉ ("NaN" : Text) by decide

mutual

/-- A written value has no carriage return. -/
theorem writeAt_noReturn : ∀ (room : Nat) (j : Json), j.Readable room → ∀ depth,
    .char '\r' ∉ writeAt depth j
  | _, null, _, _ => show .char '\r' ∉ ("null" : Text) by decide
  | _, bool true, _, _ => show .char '\r' ∉ ("true" : Text) by decide
  | _, bool false, _, _ => show .char '\r' ∉ ("false" : Text) by decide
  | _, int n, _, depth => number_noReturn depth (.inl ⟨n, rfl⟩)
  | _, float x, h, depth => number_noReturn depth (.inr ⟨x, rfl, h.1⟩)
  | _, text t, _, _ => quote_noReturn t
  | _, array [], _, _ => show .char '\r' ∉ ("[]" : Text) by decide
  | 0, array (_ :: _), h, _ | 0, object (_ :: _), h, _ => h.elim
  | room + 1, array (item :: items), h, depth => by
    have hitems := writeItems_noReturn room (item :: items) h (depth + 1)
    show .char '\r' ∉ "[" ++ writeItems (depth + 1) (item :: items) ++ newLine depth ++ "]"
    refine noReturn_append (noReturn_append (noReturn_append ?_ hitems) ?_) ?_
    · decide
    · exact newLine_noReturn depth
    · decide
  | _, object [], _, _ => show .char '\r' ∉ ("\x7b\x7d" : Text) by decide
  | room + 1, object (member :: members), h, depth => by
    have hmembers := writeMembers_noReturn room (member :: members) h.2 (depth + 1)
    show .char '\r' ∉
      "\x7b" ++ writeMembers (depth + 1) (member :: members) ++ newLine depth ++ "\x7d"
    refine noReturn_append (noReturn_append (noReturn_append ?_ hmembers) ?_) ?_
    · decide
    · exact newLine_noReturn depth
    · decide

/-- Written items have no carriage return. -/
theorem writeItems_noReturn : ∀ (room : Nat) (items : List Json), ReadableItems room items →
    ∀ depth, .char '\r' ∉ writeItems depth items
  | _, [], _, _ => List.not_mem_nil
  | room, item :: items, h, depth => by
    have hitem := writeAt_noReturn room item h.1 depth
    have hitems := writeItems_noReturn room items h.2 depth
    rw [writeItems_cons]
    refine noReturn_append (newLine_noReturn depth) (noReturn_append hitem ?_)
    cases items with
    | nil => exact List.not_mem_nil
    | cons next items => exact noReturn_append (s := [.char ',']) (by decide) hitems

/-- Written members have no carriage return. -/
theorem writeMembers_noReturn : ∀ (room : Nat) (members : List (Text × Json)),
    ReadableMembers room members → ∀ depth, .char '\r' ∉ writeMembers depth members
  | _, [], _, _ => List.not_mem_nil
  | room, (key, value) :: members, h, depth => by
    have hvalue := writeAt_noReturn room value h.1 depth
    have hmembers := writeMembers_noReturn room members h.2 depth
    rw [writeMembers_cons]
    refine noReturn_append (newLine_noReturn depth) (noReturn_append (quote_noReturn key) ?_)
    refine noReturn_append (s := [.char ':', .char ' ']) (by decide) (noReturn_append hvalue ?_)
    cases members with
    | nil => exact List.not_mem_nil
    | cons next members => exact noReturn_append (s := [.char ',']) (by decide) hmembers

end

end Json

/-! ## Files -/

/-- A document that is readable is found in a file that was written with it. -/
theorem Json.decode_write {room : Nat} {j : Json} (h : j.Readable room) {bytes : Bytes}
    (hencode : Utf8.encode? (j.write ++ "\n") = some bytes) :
    ∃ text, Utf8.decode bytes = .ok text ∧
      Json.readWithin room text.normalizeNewlines = .ok j := by
  refine ⟨j.write ++ "\n", Utf8.decode_encode hencode, ?_⟩
  have hreturn : .char '\r' ∉ j.write ++ "\n" :=
    noReturn_append (writeAt_noReturn room j h 0) (by decide)
  rw [Text.normalizeNewlines_eq hreturn]
  exact readWithin_write h

end ProviderKit
