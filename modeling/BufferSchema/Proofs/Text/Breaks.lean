import BufferSchema.Proofs.Text.Lines

/-!
# Texts without line breaks

Unicode ends a line in seven ways, and all of their characters are blank. A text without any of them stays on one
line, whatever is made of it there.
-/

namespace BufferSchema.Text

/-- A line feed, a vertical tab, a form feed, a carriage return, or one of the line and paragraph separators of
Unicode. -/
def isLineBreak (c : Char) : Bool :=
  let n := c.toNat
  (10 ≤ n && n ≤ 13) || n == 0x85 || n == 0x2028 || n == 0x2029

/-- No character of the text ends a line. -/
def Unbroken (s : String) : Prop := ∀ c ∈ s.toList, isLineBreak c = false

instance (s : String) : Decidable (Unbroken s) :=
  decidable_of_iff (s.toList.all (!isLineBreak ·) = true) (by simp [Unbroken])

/-- What breaks a line is blank. -/
theorem isLineBreak_eq_false_of_isBlank {c : Char} (h : isBlank c = false) : isLineBreak c = false := by
  simp only [isBlank, isLineBreak, Bool.or_eq_false_iff, Bool.and_eq_false_iff, decide_eq_false_iff_not,
    beq_eq_false_iff_ne] at *
  omega

theorem Unbroken.oneLine {s : String} (h : Unbroken s) : OneLine s := fun hmem => absurd (h '\n' hmem) (by decide)

@[simp] theorem unbroken_append {a b : String} : Unbroken (a ++ b) ↔ Unbroken a ∧ Unbroken b := by
  simp [Unbroken, String.toList_append, or_imp, forall_and]

theorem unbroken_of_isNamePart {s : String} (h : ∀ c ∈ s.toList, isNamePart c = true) : Unbroken s :=
  fun c hc => isLineBreak_eq_false_of_isBlank (isBlank_eq_false_of_isNamePart (h c hc))

theorem unbroken_of_isIdentifier {s : String} (h : IsIdentifier s.toList) : Unbroken s :=
  unbroken_of_isNamePart h.isNamePart

theorem unbroken_toString (n : Nat) : Unbroken (toString n) :=
  unbroken_of_isNamePart fun c hc => isNamePart_of_isDigit (isDigit_of_mem_toString n c hc)

theorem unbroken_singleton {c : Char} (h : isLineBreak c = false) : Unbroken (toString c) := by
  simpa [Unbroken, toString] using h

/-- Joining unbroken texts by an unbroken one gives an unbroken one. -/
theorem unbroken_intercalate {sep : String} {ls : List String} (hsep : Unbroken sep) (h : ∀ l ∈ ls, Unbroken l) :
    Unbroken (sep.intercalate ls) :=
  forall_mem_intercalate hsep h

theorem Position.unbroken_text (p : Position) : Unbroken p.text := by
  unfold text
  split
  · decide
  · simp only [toString, unbroken_append]
    exact ⟨⟨unbroken_toString _, by decide⟩, unbroken_toString _⟩

end BufferSchema.Text
