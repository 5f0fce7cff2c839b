/-!
# Identifier characters

An identifier starts with a letter or an underscore and goes on with letters, digits and
underscores, all of ASCII.
-/

namespace BufferSchema.Text

/-- A letter of the ASCII alphabet or an underscore. -/
def isNameStart (c : Char) : Bool := c.isAlpha || c == '_'

/-- A letter or a digit of ASCII, or an underscore. -/
def isNamePart (c : Char) : Bool := c.isAlphanum || c == '_'

theorem isNamePart_of_isNameStart {c : Char} (h : isNameStart c = true) : isNamePart c = true := by
  simp only [isNameStart, isNamePart, Char.isAlphanum, Bool.or_eq_true] at *
  rcases h with h | h <;> simp [h]

end BufferSchema.Text
