import BufferSchema.Token.Stream

/-!
# Cursors

A cursor is a place in a token stream, a 64-bit index. Moves that would leave the stream do
nothing, and reading past the end gives the token that stands for the end. A forward move takes
a sum of 64-bit numbers. What becomes of one that does not fit is for the arithmetic to say.
-/

namespace BufferSchema

/-- What becomes of a sum that does not fit 64 bits: taking it fails, or its 65th bit is lost. -/
inductive Arithmetic where
  | checked
  | wrapping
deriving DecidableEq, Repr

/-- The sum of two 64-bit numbers, or `none` if taking it fails. -/
def Arithmetic.add? : Arithmetic → UInt64 → UInt64 → Option UInt64
  | checked, m, n => if m.toNat + n.toNat < UInt64.size then some (m + n) else none
  | wrapping, m, n => some (m + n)

/-- A place in a token stream. -/
structure Cursor where
  index : UInt64
deriving DecidableEq, Repr

/-- The cursor `n` tokens earlier, or the same cursor if that lies before the start. -/
def Cursor.stepBackward (c : Cursor) (n : UInt64) : Cursor :=
  if 0 < n ∧ n ≤ c.index then ⟨c.index - n⟩ else c

namespace TokenStream

variable (s : TokenStream)

/-- The token at the cursor. -/
def current (c : Cursor) : Token := s.get c.index.toNat

/-- The cursor one token later, or the same cursor at the end. -/
def advance (c : Cursor) : Cursor :=
  if c.index.toNat < s.size then ⟨c.index + 1⟩ else c

/-- The token at a distance from the cursor, if there is one. -/
def peek? (c : Cursor) (offset : Int) : Option Token :=
  let i := c.index.toNat + offset
  if i < 0 then none else s.tokens[i.toNat]?

/-- The token after the cursor, or the end of the text. -/
def front (c : Cursor) : Token := (s.peek? c 1).getD (.endOfInput s.size)

/-- The cursor at `target`, or the same cursor if `target` lies past the end. -/
def jump (c : Cursor) (target : UInt64) : Cursor :=
  if target.toNat ≤ s.size then ⟨target⟩ else c

/-- The cursor `n` tokens later, or the same cursor if that lies past the end. It fails where the
arithmetic fails to take the sum. -/
def stepForward (a : Arithmetic) (c : Cursor) (n : UInt64) : Option Cursor :=
  if 0 < n then (a.add? c.index n).map fun i => if i.toNat ≤ s.size then ⟨i⟩ else c
  else some c

end TokenStream

end BufferSchema
