/-!
# Terminal styles

Text can be painted with the escape sequences of a terminal, or left as it is where colours
are off.
-/

namespace BufferSchema.Text

/-- A colour or weight of terminal text. -/
inductive Style where
  | bold
  | dim
  | red
  | green
  | yellow
  | blue
deriving DecidableEq, Repr

/-- The number that selects the style in an escape sequence. -/
def Style.selector : Style → Nat
  | .bold => 1
  | .dim => 2
  | .red => 31
  | .green => 32
  | .yellow => 33
  | .blue => 34

/-- The text in the given style, closed by a reset; the text alone where colours are off. -/
def paint (colour : Bool) (style : Style) (text : String) : String :=
  if colour then s!"\x1b[{style.selector}m{text}\x1b[0m" else text

@[simp] theorem paint_false (style : Style) (text : String) : paint false style text = text := rfl

end BufferSchema.Text
