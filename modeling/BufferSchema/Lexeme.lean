import BufferSchema.Text.Blank
import BufferSchema.Text.Identifier
import BufferSchema.Text.Position

/-!
# Lexemes

The smallest units of a text: names, digits, comments and single marks, separated by blanks.
`Lexeme.ofText` cuts a text into them. A comment is a lexeme like the others; what it means is
settled later. `Piece.ofChars` takes the first lexeme off a list of characters and returns the
shorter rest, which is what makes the cutting end.
-/

namespace BufferSchema

namespace Lexeme

/-- What a lexeme is made of. -/
inductive Kind where
  | identifier
  | int
  | comment
  | mark
deriving DecidableEq, Repr

/-- The body of a block comment, up to and with the first `*/`, and the rest. A comment that is
never closed takes everything. -/
def splitBlock : List Char → List Char × List Char
  | [] => ([], [])
  | c :: cs =>
    if c = '*' ∧ cs.head? = some '/' then (['*', '/'], cs.tail)
    else (c :: (splitBlock cs).1, (splitBlock cs).2)

theorem splitBlock_append (cs : List Char) : (splitBlock cs).1 ++ (splitBlock cs).2 = cs := by
  induction cs with
  | nil => rfl
  | cons c cs ih =>
    simp only [splitBlock]
    split
    · next h =>
      obtain ⟨rfl, h⟩ := h
      cases cs with
      | nil => simp at h
      | cons d ds => simp_all
    · simp [ih]

/-- One lexeme cut off a text: its kind, its characters, and what follows. -/
structure Piece where
  kind : Kind
  text : List Char
  rest : List Char

/-- The lexeme that starts with the character `c`, which is not blank. -/
def Piece.ofChars (c : Char) (cs : List Char) : Piece :=
  if Text.isNameStart c then
    ⟨.identifier, c :: cs.takeWhile Text.isNamePart, cs.dropWhile Text.isNamePart⟩
  else if c.isDigit then ⟨.int, c :: cs.takeWhile Char.isDigit, cs.dropWhile Char.isDigit⟩
  else if c = '/' ∧ cs.head? = some '/' then
    ⟨.comment, c :: cs.takeWhile (· != '\n'), cs.dropWhile (· != '\n')⟩
  else if c = '/' ∧ cs.head? = some '*' then
    ⟨.comment, '/' :: '*' :: (splitBlock cs.tail).1, (splitBlock cs.tail).2⟩
  else ⟨.mark, [c], cs⟩

theorem Piece.text_append_rest (c : Char) (cs : List Char) :
    (ofChars c cs).text ++ (ofChars c cs).rest = c :: cs := by
  unfold ofChars
  split
  · simp
  · split
    · simp
    · split
      · simp
      · split
        · next h =>
          obtain ⟨rfl, h⟩ := h
          cases cs with
          | nil => simp at h
          | cons d ds => simp_all [splitBlock_append]
        · simp

theorem Piece.text_ne_nil (c : Char) (cs : List Char) : (ofChars c cs).text ≠ [] := by
  unfold ofChars
  repeat' split
  all_goals simp

theorem Piece.length_rest (c : Char) (cs : List Char) : (ofChars c cs).rest.length ≤ cs.length := by
  have h := congrArg List.length (text_append_rest c cs)
  have h' := List.length_pos_iff.2 (text_ne_nil c cs)
  simp only [List.length_append, List.length_cons] at h
  omega

end Lexeme

/-- A lexeme with the place of its first character. -/
structure Lexeme where
  kind : Lexeme.Kind
  text : String
  position : Text.Position
deriving DecidableEq, Repr

namespace Lexeme

/-- The lexemes of the characters `cs`, the first of which stands at `p`. -/
def ofChars (p : Text.Position) (cs : List Char) : List Lexeme :=
  match _h : cs.dropWhile Text.isBlank with
  | [] => []
  | c :: rest =>
    let here := p.advance (cs.takeWhile Text.isBlank)
    let piece := Piece.ofChars c rest
    ⟨piece.kind, String.ofList piece.text, here⟩ :: ofChars (here.advance piece.text) piece.rest
termination_by cs.length
decreasing_by
  have hr := Piece.length_rest c rest
  have hd := (List.dropWhile_sublist (l := cs) Text.isBlank).length_le
  rw [_h, List.length_cons] at hd
  omega

/-- The lexemes of a text, in their order. -/
def ofText (source : String) : List Lexeme :=
  ofChars .start source.toList

end Lexeme

end BufferSchema
