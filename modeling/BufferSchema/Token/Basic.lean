import BufferSchema.Lexeme

/-!
# Tokens

A token is a lexeme that has a place in the grammar. What a name stands for depends on the token
before it: the name after a keyword names what the keyword introduces, any other name is a type.
-/

namespace BufferSchema

open Text (Position)

/-- The reserved words of the schema language. -/
inductive Keyword where
  | struct
  | field
  | exports
deriving DecidableEq, Repr

namespace Keyword

def all : List Keyword := [struct, field, exports]

/-- The spelling. -/
def text : Keyword → String
  | struct => "struct"
  | field => "field"
  | exports => "exports"

/-- The keyword with a given spelling. -/
def ofText? (s : String) : Option Keyword := all.find? (·.text == s)

theorem ofText?_eq_some_iff {s : String} {k : Keyword} : ofText? s = some k ↔ s = k.text := by
  constructor
  · intro h
    have := List.find?_some h
    simpa using (beq_iff_eq.1 this).symm
  · rintro rfl
    cases k <;> decide

end Keyword

namespace Token

/-- What a token is in the grammar. -/
inductive Kind where
  | keyword (k : Keyword)
  | name (introducedBy : Keyword)
  | typeName
  | int
  | operator
  | endOfInput
deriving DecidableEq, Repr

/-- The kind as shown to a reader. -/
def Kind.text : Kind → String
  | keyword _ => "Keyword"
  | name .struct => "Struct Name"
  | name .field => "Field Name"
  | name .exports => "Export Name"
  | typeName => "Type"
  | int => "Int"
  | operator => "Operator"
  | endOfInput => "Invalid"

def Kind.isKeyword : Kind → Bool
  | keyword _ => true
  | _ => false

/-- The marks that the grammar uses. A colon may stand between a field and its type. -/
def operators : List String := ["\x7b", "\x7d", "[", "]", ":"]

/-- The kind of a lexeme that follows a token of kind `before?`, or `none` for a mark that the
grammar does not use and for a comment, which is no token. -/
def Kind.ofLexeme? (before? : Option Kind) (l : Lexeme) : Option Kind :=
  match l.kind with
  | .comment => none
  | .int => some .int
  | .mark => if l.text ∈ operators then some .operator else none
  | .identifier =>
    match Keyword.ofText? l.text with
    | some k => some (.keyword k)
    | none =>
      match before? with
      | some (.keyword k) => some (.name k)
      | _ => some .typeName

end Token

/-- A token with its number in the text and the place of its first character. -/
structure Token where
  index : Nat
  kind : Token.Kind
  lexeme : String
  position : Position
deriving DecidableEq, Repr

namespace Token

/-- The token that stands for the end of a text of `index` tokens. -/
def endOfInput (index : Nat) : Token := ⟨index, .endOfInput, "EOF", .endOfInput⟩

/-- Whether the token is spelled `text`. The end of the text is spelled by nothing. -/
def isSpelled (t : Token) (text : String) : Bool :=
  t.kind != .endOfInput && t.lexeme == text

@[simp] theorem isSpelled_endOfInput (index : Nat) (text : String) :
    (endOfInput index).isSpelled text = false := rfl

theorem isSpelled_iff {t : Token} {text : String} :
    t.isSpelled text = true ↔ t.kind ≠ .endOfInput ∧ t.lexeme = text := by
  simp [isSpelled]

end Token

end BufferSchema
