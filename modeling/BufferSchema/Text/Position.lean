/-!
# Places in a text

A place is a line and a column, both counted from one. Columns count characters, and only a
line feed ends a line. What lies past the end of a text has no line; its place is `0:0`,
written `EOF`.
-/

namespace BufferSchema.Text

/-- A line and a column, both counted from one. -/
structure Position where
  line : Nat
  column : Nat
deriving DecidableEq, Repr, Inhabited

namespace Position

/-- The place of the first character. -/
def start : Position := ⟨1, 1⟩

/-- The place of what lies past the last character. -/
def endOfInput : Position := ⟨0, 0⟩

/-- The place that follows a character standing at `p`. -/
def next (p : Position) (c : Char) : Position :=
  if c = '\n' then ⟨p.line + 1, 1⟩ else ⟨p.line, p.column + 1⟩

/-- The place that follows the characters `cs`, the first of which stands at `p`. -/
def advance (p : Position) (cs : List Char) : Position :=
  cs.foldl next p

@[simp] theorem advance_nil (p : Position) : p.advance [] = p := rfl

@[simp] theorem advance_cons (p : Position) (c : Char) (cs : List Char) :
    p.advance (c :: cs) = (p.next c).advance cs := rfl

theorem advance_append (p : Position) (as bs : List Char) :
    p.advance (as ++ bs) = (p.advance as).advance bs := by
  simp [advance]

/-- The written form, `LINE:COLUMN`. -/
def text (p : Position) : String :=
  if p = endOfInput then "EOF" else s!"{p.line}:{p.column}"

instance : ToString Position := ⟨text⟩

end Position

end BufferSchema.Text
