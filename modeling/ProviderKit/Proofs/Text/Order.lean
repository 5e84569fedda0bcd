import ProviderKit.Text.Basic

/-!
# The order of texts

Code points are known by their numbers, and so the order of texts is a linear one.
-/

namespace ProviderKit

/-- The number of a surrogate is that of no character. -/
theorem CodePoint.toNat_injective : Function.Injective CodePoint.toNat := by
  intro a b h
  cases a with
  | char c =>
    cases b with
    | char d => exact congrArg CodePoint.char (Char.toNat_inj.1 h)
    | surrogate s =>
      have hvalid : c.toNat < 0xD800 ∨ 0xDFFF < c.toNat ∧ c.toNat < 0x110000 := c.valid
      change c.toNat = 0xD800 + s.val at h
      omega
  | surrogate s =>
    cases b with
    | char d =>
      have hvalid : d.toNat < 0xD800 ∨ 0xDFFF < d.toNat ∧ d.toNat < 0x110000 := d.valid
      change 0xD800 + s.val = d.toNat at h
      omega
    | surrogate t =>
      change 0xD800 + s.val = 0xD800 + t.val at h
      exact congrArg CodePoint.surrogate (Fin.ext (by omega))

namespace Text

/-- How texts with a first code point compare. -/
theorem le_cons_iff {a b : CodePoint} {s t : Text} :
    le (a :: s) (b :: t) = true ↔ a.toNat < b.toNat ∨ a = b ∧ le s t = true := by
  rw [le, Bool.or_eq_true, Bool.and_eq_true, decide_eq_true_eq, beq_iff_eq,
    CodePoint.toNat_injective.eq_iff]

/-- Of two texts one comes before the other. -/
theorem le_total (s t : Text) : le s t = true ∨ le t s = true := by
  induction s generalizing t with
  | nil => exact .inl rfl
  | cons a s ih =>
    cases t with
    | nil => exact .inr rfl
    | cons b t =>
      simp only [le_cons_iff]
      rcases Nat.lt_trichotomy a.toNat b.toNat with hlt | heq | hgt
      · exact .inl (.inl hlt)
      · obtain rfl := CodePoint.toNat_injective heq
        rcases ih t with hle | hge
        · exact .inl (.inr ⟨rfl, hle⟩)
        · exact .inr (.inr ⟨rfl, hge⟩)
      · exact .inr (.inl hgt)

/-- Texts that come before each other are one. -/
theorem le_antisymm {s t : Text} (h : le s t = true) (h' : le t s = true) : s = t := by
  induction s generalizing t with
  | nil =>
    cases t with
    | nil => rfl
    | cons => cases h'
  | cons a s ih =>
    cases t with
    | nil => cases h
    | cons b t =>
      rw [le_cons_iff] at h h'
      rcases h with hlt | ⟨rfl, hle⟩
      · rcases h' with hgt | ⟨rfl, -⟩ <;> omega
      · rcases h' with hlt | ⟨-, hge⟩
        · omega
        · rw [ih hle hge]

/-- A text comes before what comes after a later one. -/
theorem le_trans {s t u : Text} (h : le s t = true) (h' : le t u = true) : le s u = true := by
  induction s generalizing t u with
  | nil => rfl
  | cons a s ih =>
    cases t with
    | nil => cases h
    | cons b t =>
      cases u with
      | nil => cases h'
      | cons c u =>
        rw [le_cons_iff] at h h' ⊢
        rcases h with hlt | ⟨rfl, hle⟩
        · rcases h' with hlt' | ⟨rfl, -⟩
          · exact .inl (Nat.lt_trans hlt hlt')
          · exact .inl hlt
        · rcases h' with hlt' | ⟨rfl, hle'⟩
          · exact .inl hlt'
          · exact .inr ⟨rfl, ih hle hle'⟩

end Text

end ProviderKit
