import BufferSchema.Token.Stream

/-!
# Scanning with an index of keywords

A scan can be done in one pass over the lexemes of a text that keeps, beside the tokens accepted so far, a list of
numbers for each keyword. A comment is passed over. A keyword is put on its list before the token is accepted, and
what a name stands for is told by the text of the last token.
-/

namespace BufferSchema

/-- The kind of a name that is no keyword, by the text of the token before it. -/
def Token.Kind.ofName (before? : Option String) : Kind :=
  match before?.bind Keyword.ofText? with
  | some k => .name k
  | none => .typeName

/-- Accepted tokens, and the numbers of the keywords among them. -/
@[ext]
structure IndexedTokens where
  tokens : List Token := []
  structs : List Nat := []
  fields : List Nat := []
  exports : List Nat := []
deriving DecidableEq, Repr

namespace IndexedTokens

/-- The numbers of the tokens that are the keyword `k`. -/
def numbers (s : IndexedTokens) (k : Keyword) : List Nat :=
  match k with
  | .struct => s.structs
  | .field => s.fields
  | .exports => s.exports

/-- The number of the next token, put on the list of the keyword `k`. -/
def note (s : IndexedTokens) (k : Keyword) : IndexedTokens :=
  match k with
  | .struct => { s with structs := s.structs ++ [s.tokens.length] }
  | .field => { s with fields := s.fields ++ [s.tokens.length] }
  | .exports => { s with exports := s.exports ++ [s.tokens.length] }

/-- The lexeme `l` accepted as a token. The first token of a text must be a keyword. -/
def accept (s : IndexedTokens) (kind : Token.Kind) (l : Lexeme) : Except CompileError IndexedTokens :=
  if s.tokens.isEmpty && !kind.isKeyword then .error (.leadingToken l.text)
  else .ok { s with tokens := s.tokens ++ [⟨s.tokens.length, kind, l.text, l.position⟩] }

/-- What the scan does for one lexeme. -/
def enter (s : IndexedTokens) (l : Lexeme) : Except CompileError IndexedTokens :=
  match l.kind with
  | .comment => .ok s
  | .identifier =>
    match Keyword.ofText? l.text with
    | some k => (s.note k).accept (.keyword k) l
    | none => s.accept (.ofName (s.tokens.getLast?.map (·.lexeme))) l
  | .int => s.accept .int l
  | .mark =>
    if l.text ∈ Token.operators then s.accept .operator l else .error (.unknownOperator l.text l.position)

/-- The tokens of a text with their index. -/
def ofText (source : String) : Except CompileError IndexedTokens :=
  (Lexeme.ofText source).foldlM enter {}

end IndexedTokens

end BufferSchema
