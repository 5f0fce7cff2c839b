import BufferSchema.Text.Blank
import BufferSchema.Text.Identifier
import Mathlib.Data.String.Basic

/-!
# The characters of words, by their codes

Letters, digits and the underscore are told apart by the ranges of their codes, and so is everything that
separates words. What holds of these sets of characters is then arithmetic.
-/

namespace BufferSchema.Text

theorem isDigit_iff {c : Char} : c.isDigit = true ↔ 48 ≤ c.toNat ∧ c.toNat ≤ 57 := by
  unfold Char.isDigit
  rw [Bool.and_eq_true, decide_eq_true_eq, decide_eq_true_eq, ge_iff_le, UInt32.le_iff_toNat_le,
    UInt32.le_iff_toNat_le]
  exact Iff.rfl

theorem isAlpha_iff {c : Char} :
    c.isAlpha = true ↔ 65 ≤ c.toNat ∧ c.toNat ≤ 90 ∨ 97 ≤ c.toNat ∧ c.toNat ≤ 122 := by
  unfold Char.isAlpha Char.isUpper Char.isLower
  simp only [Bool.or_eq_true, Bool.and_eq_true, decide_eq_true_eq, ge_iff_le, UInt32.le_iff_toNat_le]
  exact Iff.rfl

theorem eq_underscore_iff {c : Char} : c = '_' ↔ c.toNat = 95 := by
  rw [← Char.toNat_inj]
  exact Iff.rfl

theorem isNameStart_iff {c : Char} : isNameStart c = true ↔
    (65 ≤ c.toNat ∧ c.toNat ≤ 90 ∨ 97 ≤ c.toNat ∧ c.toNat ≤ 122) ∨ c.toNat = 95 := by
  rw [isNameStart, Bool.or_eq_true, isAlpha_iff, beq_iff_eq, eq_underscore_iff]

/-- The characters of names, by their codes. -/
theorem isNamePart_iff {c : Char} : isNamePart c = true ↔
    ((65 ≤ c.toNat ∧ c.toNat ≤ 90 ∨ 97 ≤ c.toNat ∧ c.toNat ≤ 122) ∨ 48 ≤ c.toNat ∧ c.toNat ≤ 57) ∨
      c.toNat = 95 := by
  unfold isNamePart Char.isAlphanum
  rw [Bool.or_eq_true, Bool.or_eq_true, isAlpha_iff, isDigit_iff, beq_iff_eq, eq_underscore_iff]

/-- A digit may stand in a name, but not at its start. -/
theorem isNamePart_of_isDigit {c : Char} (h : c.isDigit = true) : isNamePart c = true := by
  rw [isDigit_iff] at h
  rw [isNamePart_iff]
  omega

theorem isNameStart_eq_false_of_isDigit {c : Char} (h : c.isDigit = true) : isNameStart c = false := by
  rw [isDigit_iff] at h
  rw [Bool.eq_false_iff, ne_eq, isNameStart_iff]
  omega

theorem isNamePart_eq_false_iff {c : Char} : isNamePart c = false ↔ isNameStart c = false ∧ c.isDigit = false := by
  rw [Bool.eq_false_iff, Bool.eq_false_iff, Bool.eq_false_iff, ne_eq, ne_eq, ne_eq, isNamePart_iff, isNameStart_iff,
    isDigit_iff]
  omega

theorem isBlank_eq_false_of_isNamePart {c : Char} (h : isNamePart c = true) : isBlank c = false := by
  rw [isNamePart_iff] at h
  simp only [isBlank, Bool.or_eq_false_iff, Bool.and_eq_false_iff, decide_eq_false_iff_not,
    beq_eq_false_iff_ne]
  omega

theorem isNamePart_eq_false_of_isBlank {c : Char} (h : isBlank c = true) : isNamePart c = false := by
  cases hc : isNamePart c with
  | false => rfl
  | true => simp [isBlank_eq_false_of_isNamePart hc] at h

/-- The characters of names are among those that take one byte. -/
theorem utf8Size_of_isNamePart {c : Char} (h : isNamePart c = true) : c.utf8Size = 1 := by
  rw [isNamePart_iff] at h
  rw [Char.utf8Size_eq_one_iff, UInt32.le_iff_toNat_le]
  show c.toNat ≤ 127
  omega

/-- Only a letter and its capital become the letter in lower case. -/
theorem toLower_eq_iff {c lower upper : Char} (h : lower.toNat = upper.toNat + 32) (hfirst : 65 ≤ upper.toNat)
    (hlast : upper.toNat ≤ 90) : c.toLower = lower ↔ c = lower ∨ c = upper := by
  have hcapital : (c.val ≥ 'A'.val ∧ c.val ≤ 'Z'.val) ↔ 65 ≤ c.toNat ∧ c.toNat ≤ 90 := by
    simp only [ge_iff_le, UInt32.le_iff_toNat_le]
    rfl
  unfold Char.toLower
  rw [← Char.toNat_inj, ← Char.toNat_inj, ← Char.toNat_inj]
  split
  · next hc =>
    have hrange := hcapital.1 hc
    have hlower : (c.val + ('a'.val - 'A'.val)).toNat = c.toNat + 32 := by
      rw [UInt32.toNat_add]
      exact Nat.mod_eq_of_lt (by show c.toNat + 32 < 2 ^ 32; omega)
    show (c.val + ('a'.val - 'A'.val)).toNat = lower.toNat ↔ _
    omega
  · next hc =>
    rw [hcapital] at hc
    omega

end BufferSchema.Text
