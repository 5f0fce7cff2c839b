import BufferSchema.Lexeme

/-!
# Scanning with two cursors

A scanner goes through a text with two cursors, the characters that are left and a number of bytes. It decides by
the characters what to go over, and then takes the text of a lexeme as the slice between the bytes before and
behind it; it also looks one character past the next one through a slice. A slice exists only between places at
which a character begins or the text ends, so that a scanner whose cursors are out of step fails with `BadSlice`.
-/

namespace BufferSchema

/-- The text between two numbers of bytes, which must be in order and each at the start of a character or at the
end of the text. -/
def Text.slice? (source : String) (start stop : Nat) : Option String :=
  if String.Pos.Raw.isValid source ⟨start⟩ ∧ String.Pos.Raw.isValid source ⟨stop⟩ ∧ start ≤ stop then
    some (String.Pos.Raw.extract source ⟨start⟩ ⟨stop⟩)
  else none

/-- The bounds of a slice that a text does not have. -/
structure BadSlice where
  start : Nat
  stop : Nat
deriving DecidableEq, Repr

/-- A text, the characters of it that are left, the bytes in front of them, and the place of the first of them. -/
structure Scanner where
  source : String
  rest : List Char
  offset : Nat
  position : Text.Position
deriving DecidableEq, Repr

namespace Scanner

/-- The scanner in front of a text. -/
def start (source : String) : Scanner := ⟨source, source.toList, 0, .start⟩

/-- Goes over the next character, if there is one. -/
def advance (s : Scanner) : Scanner :=
  match s.rest with
  | [] => s
  | c :: rest => ⟨s.source, rest, s.offset + c.utf8Size, s.position.next c⟩

def slice (s : Scanner) (start stop : Nat) : Except BadSlice String :=
  match Text.slice? s.source start stop with
  | some text => .ok text
  | none => .error ⟨start, stop⟩

/-- The character behind the next one. -/
def peekSecond (s : Scanner) : Except BadSlice (Option Char) := do
  let text ← s.slice s.offset s.source.utf8ByteSize
  return text.toList[1]?

theorem length_advance (s : Scanner) : s.advance.rest.length = s.rest.length - 1 := by
  cases h : s.rest <;> simp [advance, h]

/-- Goes on as long as the next character is accepted. -/
def advanceWhile (accept : Char → Bool) (s : Scanner) : Scanner :=
  match _h : s.rest with
  | [] => s
  | c :: _ => if accept c then s.advance.advanceWhile accept else s
termination_by s.rest.length
decreasing_by rw [length_advance, _h, List.length_cons]; omega

/-- Goes behind the first `*/`, or to the end of the text. -/
def advanceBlock (s : Scanner) : Scanner :=
  match _h : s.rest with
  | [] => s
  | c :: _ => if c = '*' ∧ s.advance.rest.head? = some '/' then s.advance.advance else s.advance.advanceBlock
termination_by s.rest.length
decreasing_by rw [length_advance, _h, List.length_cons]; omega

/-- Goes over a comment. What makes it one are the next two characters. -/
def advanceComment (s : Scanner) : Scanner :=
  if s.advance.rest.head? = some '/' then s.advance.advance.advanceWhile (· != '\n')
  else s.advance.advance.advanceBlock

/-- Goes over the lexeme that starts with the next character, `c`. -/
def advanceLexeme (s : Scanner) (c : Char) : Except BadSlice (Lexeme.Kind × Scanner) :=
  if Text.isNameStart c then .ok (.identifier, s.advanceWhile Text.isNamePart)
  else if c.isDigit then .ok (.int, s.advanceWhile Char.isDigit)
  else if c = '/' then do
    let second ← s.peekSecond
    if second = some '/' ∨ second = some '*' then return (.comment, s.advanceComment)
    else return (.mark, s.advance)
  else .ok (.mark, s.advance)

/-- The lexeme that starts with the next character, and the scanner behind it. -/
def take (s : Scanner) : Except BadSlice (Option (Lexeme × Scanner)) :=
  match s.rest with
  | [] => .ok none
  | c :: _ => do
    let (kind, behind) ← s.advanceLexeme c
    let text ← s.slice s.offset behind.offset
    return some (⟨kind, text, s.position⟩, behind)

/-- The next lexeme behind any blanks, and the scanner behind it. -/
def next (s : Scanner) : Except BadSlice (Option (Lexeme × Scanner)) := (s.advanceWhile Text.isBlank).take

/-! What is left gets shorter with each lexeme. -/

theorem length_advanceWhile (accept : Char → Bool) (s : Scanner) :
    (s.advanceWhile accept).rest.length ≤ s.rest.length := by
  fun_induction advanceWhile accept s with
  | case1 => exact Nat.le_refl _
  | case2 s c rest h _ ih => rw [length_advance] at ih; omega
  | case3 => exact Nat.le_refl _

theorem length_advanceBlock (s : Scanner) : s.advanceBlock.rest.length ≤ s.rest.length := by
  fun_induction advanceBlock s with
  | case1 => exact Nat.le_refl _
  | case2 s c rest h _ => rw [length_advance, length_advance]; omega
  | case3 s c rest h _ ih => rw [length_advance] at ih; omega

theorem length_advanceComment (s : Scanner) : s.advanceComment.rest.length ≤ s.advance.rest.length := by
  have hsecond := length_advance s.advance
  have hline := length_advanceWhile (· != '\n') s.advance.advance
  have hblock := length_advanceBlock s.advance.advance
  unfold advanceComment
  split <;> omega

theorem length_advanceWhile_lt {accept : Char → Bool} {s : Scanner} {c : Char} {rest : List Char}
    (hs : s.rest = c :: rest) (hc : accept c = true) : (s.advanceWhile accept).rest.length < s.rest.length := by
  have hadvance := length_advance s
  have hwhile := length_advanceWhile accept s.advance
  rw [advanceWhile]
  split
  · next h => rw [hs] at h; cases h
  · next d _ h =>
    obtain ⟨rfl, rfl⟩ := List.cons.inj (hs.symm.trans h)
    rw [if_pos hc]
    rw [h, List.length_cons] at hadvance ⊢
    omega

theorem length_advanceLexeme {s s' : Scanner} {c : Char} {rest : List Char} {kind : Lexeme.Kind}
    (hs : s.rest = c :: rest) (h : s.advanceLexeme c = .ok (kind, s')) : s'.rest.length < s.rest.length := by
  have hadvance : s.advance.rest.length < s.rest.length := by
    rw [length_advance, hs, List.length_cons]
    omega
  unfold advanceLexeme at h
  split at h
  · next hc =>
    cases h
    exact length_advanceWhile_lt hs (Text.isNamePart_of_isNameStart hc)
  · split at h
    · next hc =>
      cases h
      exact length_advanceWhile_lt hs hc
    · split at h
      · have hcomment := length_advanceComment s
        cases hsecond : s.peekSecond with
        | error bad => rw [hsecond] at h; cases h
        | ok second =>
          simp only [hsecond, bind, Except.bind, pure, Except.pure] at h
          split at h <;> cases h <;> omega
      · cases h
        exact hadvance

theorem length_take {s s' : Scanner} {l : Lexeme} (h : s.take = .ok (some (l, s'))) :
    s'.rest.length < s.rest.length := by
  unfold take at h
  split at h
  · cases h
  · next c rest hs =>
    cases hlexeme : s.advanceLexeme c with
    | error bad => simp [hlexeme, bind, Except.bind] at h
    | ok taken =>
      cases htext : s.slice s.offset taken.2.offset with
      | error bad => simp [hlexeme, htext, bind, Except.bind] at h
      | ok text =>
        simp only [hlexeme, htext, bind, Except.bind, pure, Except.pure, Except.ok.injEq, Option.some.injEq,
          Prod.mk.injEq] at h
        rw [← h.2]
        exact length_advanceLexeme hs hlexeme

theorem length_next {s s' : Scanner} {l : Lexeme} (h : s.next = .ok (some (l, s'))) :
    s'.rest.length < s.rest.length :=
  Nat.lt_of_lt_of_le (length_take h) (length_advanceWhile Text.isBlank s)

/-- The lexemes that are left. -/
def lexemes (s : Scanner) : Except BadSlice (List Lexeme) :=
  match _h : s.next with
  | .error bad => .error bad
  | .ok none => .ok []
  | .ok (some (l, behind)) => do
    let ls ← behind.lexemes
    return l :: ls
termination_by s.rest.length
decreasing_by exact length_next _h

end Scanner

end BufferSchema
