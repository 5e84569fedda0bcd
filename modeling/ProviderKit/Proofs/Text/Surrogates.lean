import ProviderKit.Proofs.Text.Utf8
import ProviderKit.Text.Quoted

/-!
# Texts without lone surrogates

A text can be written as UTF-8 if and only if it is well-formed, that is, if none of its code points
is a lone surrogate (`Utf8.encode?_eq_none`). What is put together of parts is well-formed if its
parts are.
-/

namespace ProviderKit

namespace Text

@[simp]
theorem isWellFormed_nil : isWellFormed [] = true := rfl

@[simp]
theorem isWellFormed_cons (c : CodePoint) (t : Text) :
    isWellFormed (c :: t) = (!c.isSurrogate && isWellFormed t) := rfl

@[simp]
theorem isWellFormed_append (s t : Text) :
    isWellFormed (s ++ t) = (isWellFormed s && isWellFormed t) := List.all_append

@[simp]
theorem isWellFormed_ofChars (cs : List Char) : isWellFormed (ofChars cs) = true := by
  simp [isWellFormed, ofChars, CodePoint.isSurrogate]

@[simp]
theorem isWellFormed_ofString (s : String) : isWellFormed (ofString s) = true :=
  isWellFormed_ofChars _

/-- A text that is made piece by piece is well-formed if each piece is. -/
theorem isWellFormed_flatMap {α : Type} (f : α → Text) (items : List α) :
    isWellFormed (items.flatMap f) = items.all fun item => isWellFormed (f item) := by
  induction items with
  | nil => rfl
  | cons item items ih =>
    rw [List.flatMap_cons, isWellFormed_append, ih]
    rfl

/-- A text is escaped part by part. -/
theorem escapeSurrogates_append (s t : Text) :
    (s ++ t).escapeSurrogates = s.escapeSurrogates ++ t.escapeSurrogates := List.flatMap_append

/-- A well-formed text has nothing to escape. -/
theorem escapeSurrogates_of_isWellFormed {t : Text} (h : t.isWellFormed = true) :
    t.escapeSurrogates = t := by
  induction t with
  | nil => rfl
  | cons c t ih =>
    rw [isWellFormed_cons, Bool.and_eq_true] at h
    cases c with
    | char c => exact congrArg (CodePoint.char c :: ·) (ih h.2)
    | surrogate s => exact absurd h.1 Bool.false_ne_true

end Text

/-- The texts that cannot be written as UTF-8 are those with a lone surrogate. -/
theorem Utf8.encode?_eq_none {t : Text} : Utf8.encode? t = none ↔ t.isWellFormed = false := by
  induction t with
  | nil => simp [encode?]
  | cons c t ih =>
    cases c with
    | char c => simpa [encode?, CodePoint.isSurrogate] using ih
    | surrogate s => simp [encode?, CodePoint.isSurrogate]

end ProviderKit
