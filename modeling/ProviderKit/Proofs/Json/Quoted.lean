import ProviderKit.Json.Writer
import ProviderKit.Json.Reader

/-!
# Strings in JSON documents are read as they were written

Each code point is read back from its own escape (`readString_escape`), and so the whole text up to
the closing quote.
-/

namespace ProviderKit.Json

/-- A string that goes on with a code point. -/
def consRead (c : CodePoint) (outcome : Except Failure (Text × Text)) :
    Except Failure (Text × Text) := do
  let (body, rest) ← outcome
  pure (c :: body, rest)

/-- A code point that is neither a quote nor a backslash nor a control character is read as it
stands. -/
theorem readString_plain {c : CodePoint} (hquote : c ≠ .char '"') (hslash : c ≠ .char '\\')
    (hcontrol : ¬ c.toNat < 0x20) (opening : Nat) (t : Text) :
    readString opening (c :: t) = consRead c (readString opening t) := by
  rw [readString]
  · rw [if_neg hcontrol]
    rfl
  · exact hquote
  · exact hslash

/-- An escape by number is read as the code point with the number. -/
theorem readString_unicode {a b c d : CodePoint} {unit : Nat}
    (hunit : hexValue4? a b c d = some unit) (hlow : unit < 0xD800) (opening : Nat) {t : Text}
    (ht : t ≠ []) :
    readString opening (.char '\\' :: .char 'u' :: a :: b :: c :: d :: t) =
      consRead (unitCodePoint unit) (readString opening t) := by
  have hempty : t.isEmpty = false := by
    rw [List.isEmpty_eq_false_iff]
    exact ht
  have hrange : (decide (0xD800 ≤ unit) && decide (unit < 0xDC00)) = false := by
    rw [Bool.and_eq_false_iff]
    exact .inl (decide_eq_false (by omega))
  simp only [readString, hempty, hunit, hrange]
  rfl

/-- An escape by one letter is read as the character that it names. -/
theorem readString_simple {c : CodePoint} {e : Char} (hu : c ≠ .char 'u')
    (he : simpleEscape? c = some e) (opening : Nat) (t : Text) :
    readString opening (.char '\\' :: c :: t) = consRead (.char e) (readString opening t) := by
  rw [readString]
  · simp only [he]
    rfl
  · exact hu

/-- The four digits of the number of a control character. -/
theorem hexDigits_control {n : Nat} (hn : n < 0x20) :
    hexDigits 4 n = ['0', '0', Nat.digitChar (n / 16), Nat.digitChar (n % 16)] := by
  have hhigh : n / 16 < 2 := by omega
  simp only [hexDigits, List.nil_append, List.cons_append]
  rw [show n / 16 / 16 / 16 % 16 = 0 by omega, show n / 16 / 16 % 16 = 0 by omega,
    show n / 16 % 16 = n / 16 by omega]
  rfl

/-- The number of a control character is read back from its four digits. -/
theorem hexValue4?_control : ∀ n < 0x20,
    hexValue4? (.char '0') (.char '0') (.char (Nat.digitChar (n / 16)))
      (.char (Nat.digitChar (n % 16))) = some n ∧ unitCodePoint n = .char (Char.ofNat n) := by
  decide

/-- A code point is read back from its escape. -/
theorem readString_escape (c : CodePoint) (opening : Nat) {t : Text} (ht : t ≠ []) :
    readString opening (escapeCodePoint c ++ t) = consRead c (readString opening t) := by
  unfold escapeCodePoint
  split
  · exact readString_simple (by decide) rfl opening t
  · exact readString_simple (by decide) rfl opening t
  · exact readString_simple (by decide) rfl opening t
  · exact readString_simple (by decide) rfl opening t
  · exact readString_simple (by decide) rfl opening t
  · exact readString_simple (by decide) rfl opening t
  · exact readString_simple (by decide) rfl opening t
  next hquote hslash _ _ _ _ _ =>
    split
    next hcontrol =>
      rcases c with c | s
      · have hsmall : c.toNat < 0x20 := hcontrol
        obtain ⟨hvalue, hunit⟩ := hexValue4?_control c.toNat hsmall
        have hlow : c.toNat < 0xD800 := Nat.lt_trans hsmall (by decide)
        have hread := readString_unicode hvalue hlow opening ht
        rw [hunit, Char.ofNat_toNat] at hread
        rw [show (CodePoint.char c).toNat = c.toNat from rfl, hexDigits_control hsmall]
        exact hread
      · exact absurd hcontrol (by show ¬ 0xD800 + s.val < 0x20; omega)
    next hcontrol =>
      exact readString_plain (fun h => hquote h) (fun h => hslash h) hcontrol opening t

/-- A text is read back from its escapes, up to the closing quote. -/
theorem readString_flatMap (t : Text) (opening : Nat) (rest : Text) :
    readString opening (t.flatMap escapeCodePoint ++ .char '"' :: rest) = .ok (t, rest) := by
  induction t with
  | nil => rfl
  | cons c t ih =>
    rw [List.flatMap_cons, List.append_assoc, readString_escape c opening (by simp), ih]
    rfl

end ProviderKit.Json
