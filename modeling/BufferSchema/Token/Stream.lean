import BufferSchema.Token.Basic
import BufferSchema.Logged

/-!
# Token streams

The accepted tokens of one text. `Scan.ofText` takes lexemes one after the other and stops at
the first that it cannot accept; what it accepted until then is kept, since the log tells it.
-/

namespace BufferSchema

/-- The tokens accepted from a text, and the cause if scanning stopped early. -/
structure Scan where
  accepted : List Token
  failure : Option CompileError
deriving DecidableEq, Repr

namespace Scan

/-- Accepts lexemes, none of them a comment, as tokens numbered from `index` on. The token before
the first one has the kind `before?`. The first token of a text must be a keyword. -/
def accept (index : Nat) (before? : Option Token.Kind) : List Lexeme → Scan
  | [] => ⟨[], none⟩
  | l :: ls =>
    match Token.Kind.ofLexeme? before? l with
    | none => ⟨[], some (.unknownOperator l.text l.position)⟩
    | some kind =>
      if before?.isNone && !kind.isKeyword then ⟨[], some (.leadingToken l.text)⟩
      else
        let later := accept (index + 1) (some kind) ls
        ⟨⟨index, kind, l.text, l.position⟩ :: later.accepted, later.failure⟩

/-- Scans a text. Comments are dropped. -/
def ofText (source : String) : Scan :=
  accept 0 none ((Lexeme.ofText source).filter (·.kind != .comment))

end Scan

/-- The tokens of one text, in their order. -/
structure TokenStream where
  tokens : List Token
deriving DecidableEq, Repr

namespace TokenStream

/-- The number of tokens. -/
def size (s : TokenStream) : Nat := s.tokens.length

/-- The numbers of the tokens that are the keyword `k`, in increasing order. -/
def occurrences (s : TokenStream) (k : Keyword) : List Nat :=
  (s.tokens.filter (·.isSpelled k.text)).map (·.index)

/-- The token at an index, or the end of the text. -/
def get (s : TokenStream) (i : Nat) : Token :=
  (s.tokens[i]?).getD (.endOfInput s.size)

/-- The `count` tokens from `start` on, or `none` if there are not so many. -/
def slice? (s : TokenStream) (start count : Nat) : Option (List Token) :=
  if start + count ≤ s.size then some ((s.tokens.drop start).take count) else none

end TokenStream

/-- The event of one accepted token. -/
def Token.event (t : Token) : Log.Event :=
  ⟨.trace, s!"token #{t.index} at '{t.position}' is '{t.kind.text}': '{t.lexeme}'"⟩

/-- The line that describes a token where the tokens of a text are listed. -/
def Token.listing (t : Token) : Log.Event :=
  ⟨.debug, s!"{t.index} {t.kind.text} '{t.lexeme}' at {t.position}"⟩

namespace TokenStream

/-- The events that close a scan: how many tokens there are, and a warning if there is not
exactly one export. -/
def summary (s : TokenStream) : List Log.Event :=
  let structs := (s.occurrences .struct).length
  let fields := (s.occurrences .field).length
  let exported := (s.occurrences .exports).length
  let count : Log.Event := ⟨.debug,
    s!"scanned {s.size} tokens: {structs} struct, {fields} field, {exported} export references"⟩
  if exported = 1 then [count]
  else [count, ⟨.warn, s!"found {exported} export references, a schema normally has exactly 1"⟩]

/-- The token stream of a text. -/
def scan (source : String) : Logged TokenStream :=
  let scan := Scan.ofText source
  let events := scan.accepted.map Token.event
  match scan.failure with
  | some e => ⟨events, .error e⟩
  | none => ⟨events ++ (⟨scan.accepted⟩ : TokenStream).summary, .ok ⟨scan.accepted⟩⟩

end TokenStream

end BufferSchema
