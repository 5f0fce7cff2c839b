import BufferSchema.Guarded
import BufferSchema.Token.Cursor

/-!
# Reading a schema with a cursor

A second way to read a schema leaves the tokens where they are and moves a cursor along them. It goes from struct to
struct, and in a struct from field to field, by the numbers of their keywords. In between it looks at the token under
the cursor and at the one behind it. A move that would leave the text does nothing and is not told, and a forward move
takes a sum, which the arithmetic may fail to take.

Every function leaves the cursor on the last token that it has read, where those of `Schema.Parser` hand on the tokens
behind it.
-/

namespace BufferSchema.Schema.CursorParser

open Schema.Parser (arraySize? mapShape? typeName)

/-- Why reading ends early: a sum does not fit 64 bits, or the text is refused. -/
inductive Stop where
  | overflow
  | refused (e : CompileError)
deriving DecidableEq, Repr

variable (a : Arithmetic) (s : TokenStream)

/-- The cursor `n` tokens later. -/
def forward (c : Cursor) (n : UInt64) : Except Stop Cursor :=
  match s.stepForward a c n with
  | some d => .ok d
  | none => .error .overflow

/-- The shape of an array type, from its opening bracket on. The cursor is left on the closing one. -/
def arrayShape (c : Cursor) : Except CompileError (Shape × Cursor) :=
  let notClosed (found : Token) : CompileError :=
    .bracketNotClosed (s.current c).position found.lexeme found.position
  let c := s.advance c
  let next := s.current c
  if next.kind = .int then
    match arraySize? next.lexeme with
    | none => .error (.invalidArraySize next.lexeme next.position)
    | some count =>
      let c := s.advance c
      let close := s.current c
      if close.isSpelled "]" then .ok (.fixedArray count, c) else .error (notClosed close)
  else if next.isSpelled "]" then .ok (.dynamicArray, c)
  else .error (notClosed next)

/-- The element of an array, with the cursor on the closing bracket. -/
def arrayElement (shape : Shape) (c : Cursor) : Except CompileError (TypeRef × Cursor) := do
  let c := s.advance c
  let name ← typeName (s.current c)
  .ok (⟨.ofName name, shape⟩, c)

/-- An array type, from its opening bracket on. -/
def arrayType (c : Cursor) : Except CompileError (TypeRef × Cursor) := do
  let (shape, c) ← arrayShape s c
  arrayElement s shape c

/-- A map type, from its opening brace on. The type of the values is judged last. -/
def mapType (c : Cursor) : Except CompileError (TypeRef × Cursor) :=
  let openedAt := (s.current c).position
  let c := s.advance c
  let value := s.current c
  if value.isSpelled "\x7d" then .error (.mapValueMissing openedAt)
  else
    let c := s.advance c
    if !(s.current c).isSpelled "\x7d" then .error (.braceNotClosed openedAt)
    else
      let c := s.advance c
      match mapShape? (s.current c) with
      | none => .error (.mapKeywordExpected openedAt)
      | some shape => do
        let name ← typeName value
        .ok (⟨.ofName name, shape⟩, c)

/-- The type that starts at the cursor. -/
def typeRef (c : Cursor) : Except CompileError (TypeRef × Cursor) :=
  let start := s.current c
  if start.isSpelled "\x7b" then mapType s c
  else if start.isSpelled "[" then arrayType s c
  else do
    let name ← typeName start
    .ok (⟨.ofName name, .scalar⟩, c)

/-- The cursor behind a colon that it may stand on. -/
def skipColon (c : Cursor) : Except Stop Cursor :=
  if (s.current c).isSpelled ":" then forward a s c 1 else .ok c

/-- The field whose keyword has the number `place`. -/
def field (place : Nat) (c : Cursor) : Except Stop (Field × Cursor) := do
  let c := s.jump c (.ofNat place)
  let keyword := s.current c
  let name := s.front c
  (Name.check name.lexeme).mapError .refused
  if name.kind = .name .field then
    let c ← forward a s c 2
    let c ← skipColon a s c
    let (type, c) ← (typeRef s c).mapError .refused
    .ok (⟨name.lexeme, type⟩, c)
  else .error (.refused (.fieldNameExpected keyword.position))

/-- The first token behind the cursor, if it stands in front of the one numbered `place`. -/
def stray? (c : Cursor) (place : Nat) : Except Stop (Option Token) :=
  match a.add? c.index 1 with
  | none => .error .overflow
  | some start => .ok ((s.slice? start.toNat (place - start.toNat)).bind List.head?)

/-- The fields of the struct `current`, whose keyword has the number `start`, up to its closing brace. The numbers are
those of the field keywords of the text, and those in front of the struct are passed over. -/
def fields (start : Nat) (current : Struct) (c : Cursor) : List Nat → Except Stop (Struct × Cursor)
  | [] => .ok (current, c)
  | place :: places =>
    if place < start then fields start current c places
    else do
      if let some token ← stray? a s c place then
        .error (.refused (.tokenBeforeField token.lexeme token.position))
      else
        let (f, c) ← field a s place c
        if (current.field? f.name).isSome then .error (.refused (.duplicateField current.name f.name))
        else
          let next := s.front c
          if next.isSpelled "\x7d" then
            let c ← forward a s c 1
            .ok (current.push f, c)
          else if next.isSpelled Keyword.field.text then fields start (current.push f) c places
          else .error (.refused (.fieldExpected f.name next.position current.name))

/-- The body of the struct `current`, whose keyword has the number `start`, from its opening brace on. -/
def body (start : Nat) (current : Struct) (c : Cursor) : Except Stop (Struct × Cursor) :=
  if (s.front c).isSpelled "\x7d" then do
    let c ← forward a s c 1
    .ok (current, c)
  else fields a s start current c (s.occurrences .field)

/-- The struct whose keyword has the number `place`. -/
def struct (place : Nat) (c : Cursor) : Except Stop (Struct × Cursor) := do
  let c := s.jump c (.ofNat place)
  let keyword := s.current c
  let name := s.front c
  (Name.check name.lexeme).mapError .refused
  if name.kind = .name .struct then
    if (Builtin.ofName? name.lexeme).isSome then
      .error (.refused (.builtinStructName name.lexeme keyword.position))
    else
      let c ← forward a s c 2
      let opening := s.current c
      if opening.isSpelled "\x7b" then body a s place { name := name.lexeme, position := keyword.position } c
      else .error (.refused (.structNotOpened keyword.position opening.lexeme))
  else .error (.refused (.structNameExpected keyword.position))

/-- Adds the structs whose keywords have the given numbers to those of the table `known`. -/
def structs (known : Table Struct) (c : Cursor) : List Nat → Except Stop (Table Struct × Cursor)
  | [] => .ok (known, c)
  | place :: places => do
    let (current, c) ← struct a s place c
    match known.find? current.name with
    | some earlier => .error (.refused (.duplicateStruct current.name earlier.position current.position))
    | none =>
      if current.fields.isEmpty then .error (.refused (.emptyStruct current.name))
      else
        let next := s.front c
        if next.isSpelled Keyword.struct.text || next.isSpelled Keyword.exports.text then
          structs (known.insert current.name current) c places
        else .error (.refused (.tokenAfterStruct next.lexeme next.position))

/-- The name behind the first `exports`, which must be that of a struct in the table `known`. -/
def readExports (known : Table Struct) (c : Cursor) : Except CompileError String :=
  match s.occurrences .exports with
  | [] => .error (.exportCount 0)
  | index :: _ => do
    let name := s.current (s.jump c (.ofNat (index + 1)))
    Name.check name.lexeme
    if name.kind = .name .exports then
      if name.lexeme ∈ known then .ok name.lexeme else .error (.exportNotFound name.lexeme)
    else .error (.exportNameExpected (s.get index).position)

/-- The schema that the tokens of a text define, before its references are looked at. -/
def ofTokens : Except Stop Schema := do
  (Guarded.checkReady s).mapError .refused
  let (structs, c) ← structs a s ∅ ⟨0⟩ (s.occurrences .struct)
  let exports ← (readExports s structs c).mapError .refused
  .ok { structs, exports }

end BufferSchema.Schema.CursorParser
