import ProviderKit.Json.Writer
import ProviderKit.Proofs.Schema.Shape
import ProviderKit.Proofs.Text.Surrogates

/-!
# Documents that can be encoded

What is written for a document holds a lone surrogate only where a string of the document does: a
key or a text. So a document without one can be put into a file (`encode?_write`).
-/

namespace ProviderKit.Json

/-- Quoting neither adds a lone surrogate nor takes one away. -/
@[simp]
theorem isWellFormed_quote (t : Text) : (quote t).isWellFormed = t.isWellFormed := by
  have hpoint : ∀ c, (escapeCodePoint c).isWellFormed = !c.isSurrogate := by
    intro c
    cases c with
    | char c =>
      unfold escapeCodePoint
      split <;> try rfl
      split <;> simp [CodePoint.isSurrogate]
    | surrogate s =>
      have hlarge : ¬ 0xD800 + s.val < 0x20 := by omega
      have hitself : escapeCodePoint (.surrogate s) = [.surrogate s] := if_neg hlarge
      rw [hitself]
      rfl
  unfold quote
  simp only [Text.isWellFormed_cons, Text.isWellFormed_append, Text.isWellFormed_flatMap, hpoint]
  simp [CodePoint.isSurrogate, Text.isWellFormed]

/-- The beginning of a line is made of spaces. -/
@[simp]
theorem isWellFormed_newLine (depth : Nat) : (newLine depth).isWellFormed = true := by
  simp [newLine, Text.isWellFormed, CodePoint.isSurrogate]

/-- A written integer is made of characters. -/
@[simp]
theorem isWellFormed_ofInt (n : Int) : (Text.ofInt n).isWellFormed = true := by
  cases n <;> simp [Text.ofInt, Text.ofNat, CodePoint.isSurrogate]

/-- So is a written floating-point number. -/
@[simp]
theorem isWellFormed_float (x : Binary64) : (x.text "Infinity" "NaN").isWellFormed = true := by
  cases x with
  | nan => rfl
  | infinity negative => cases negative <;> rfl
  | finite negative m e => cases negative <;> simp [Binary64.text, CodePoint.isSurrogate]

mutual

/-- What is written for a document without lone surrogates has none. -/
theorem isWellFormed_writeAt :
    ∀ j : Json, j.IsWellFormed → ∀ depth, (writeAt depth j).isWellFormed = true
  | null, _, _ | bool true, _, _ | bool false, _, _ | array [], _, _ | object [], _, _ => rfl
  | int n, _, _ => isWellFormed_ofInt n
  | float x, _, _ => isWellFormed_float x
  | text t, h, _ => (isWellFormed_quote t).trans h
  | array (item :: items), h, depth => by
    have hitems := isWellFormed_writeItems (item :: items) h (depth + 1)
    simp [writeAt, hitems]
  | object (member :: members), h, depth => by
    have hmembers := isWellFormed_writeMembers (member :: members) h (depth + 1)
    simp [writeAt, hmembers]

/-- Items without lone surrogates are written without one. -/
theorem isWellFormed_writeItems :
    ∀ items, WellFormedItems items → ∀ depth, (writeItems depth items).isWellFormed = true
  | [], _, _ => rfl
  | item :: items, h, depth => by
    have hitem := isWellFormed_writeAt item h.1 depth
    have hitems := isWellFormed_writeItems items h.2 depth
    cases items <;> simp [writeItems, hitem, hitems]

/-- Members without lone surrogates are written without one. -/
theorem isWellFormed_writeMembers :
    ∀ members, WellFormedMembers members → ∀ depth, (writeMembers depth members).isWellFormed = true
  | [], _, _ => rfl
  | (key, value) :: members, h, depth => by
    have hvalue := isWellFormed_writeAt value h.2.1 depth
    have hmembers := isWellFormed_writeMembers members h.2.2 depth
    cases members <;> simp [writeMembers, h.1, hvalue, hmembers]

end

/-- A document without lone surrogates can be encoded as it is written. -/
theorem encode?_write {j : Json} (h : j.IsWellFormed) :
    ∃ bytes, Utf8.encode? (j.write ++ "\n") = some bytes := by
  refine Option.ne_none_iff_exists'.1 fun hnone => ?_
  rw [Utf8.encode?_eq_none, Text.isWellFormed_append, write, isWellFormed_writeAt j h 0] at hnone
  simp at hnone

end ProviderKit.Json
