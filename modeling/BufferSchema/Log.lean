import BufferSchema.Text.Style

/-!
# Log events

Every stage tells what it does as a list of events. An event has a level; a threshold picks the
events that are shown. Nothing here prints: a line of the log is a text.
-/

namespace BufferSchema.Log

open Text (Style paint)

/-- How much an event matters, the most important first. -/
inductive Level where
  | warn
  | info
  | debug
  | trace
deriving DecidableEq, Repr

/-- The place in the order, the most important first. -/
def Level.rank : Level → Nat
  | .warn => 1
  | .info => 2
  | .debug => 3
  | .trace => 4

/-- Whether events of level `l` are shown at a threshold. -/
def Level.shownAt (threshold l : Level) : Bool :=
  l.rank ≤ threshold.rank

theorem Level.shownAt_mono {a b l : Level} (h : a.rank ≤ b.rank) (hl : a.shownAt l = true) :
    b.shownAt l = true := by
  simp only [shownAt, decide_eq_true_eq] at *
  omega

/-- The tag in front of a message. -/
def Level.tag : Level → String
  | .warn => "[WARNING]"
  | .info => "[INFO]"
  | .debug => "[DEBUG]"
  | .trace => "[TRACE]"

/-- The style of the tag. -/
def Level.style : Level → Style
  | .warn => .yellow
  | .info => .green
  | .debug => .blue
  | .trace => .dim

/-- Something that a stage did. -/
structure Event where
  level : Level
  message : String
deriving DecidableEq, Repr

/-- A control character in a form that a terminal does not act on. -/
def visible (c : Char) : String :=
  let n := c.toNat
  if c = '\x1b' then "\\x1b"
  else if c = '\x07' then "\\x07"
  else if c = '\x08' then "\\x08"
  else if c = '\x0c' then "\\x0c"
  else if c = '\x7f' then "\\x7f"
  else if 0x80 ≤ n ∧ n ≤ 0x9f then "\\u\x7b" ++ String.ofList (Nat.toDigits 16 n) ++ "\x7d"
  else c.toString

/-- The line of the log, with its line feed. Control characters are made visible, so that a file
name cannot drive the terminal; line feeds stay. -/
def Event.line (colour : Bool) (e : Event) : String :=
  paint colour e.level.style e.level.tag ++ " " ++ String.join (e.message.toList.map visible) ++ "\n"

end BufferSchema.Log
