import BufferSchema.Luau.Module

/-!
# Compiling with a guard at every look

The export of a text is looked at twice, before the first struct is read and behind the last one. Each look goes by
the numbers of the `exports` keywords, and each guards on its own against all that can be wrong with them. The module
comes as the only one of a list of files. `Schema.ofTokens` looks once and hands on the name that it has found, and
`Luau.compile` comes to the one file.
-/

namespace BufferSchema.Guarded

/-- Fails unless there is one `exports` and a name to export stands behind it. -/
def checkExports (s : TokenStream) : Except CompileError Unit :=
  match s.occurrences .exports with
  | [index] => if (s.get (index + 1)).kind = .name .exports then .ok () else .error (.exportCount 1)
  | found => .error (.exportCount found.length)

/-- The first look, at the text as a whole. -/
def checkReady (s : TokenStream) : Except CompileError Unit :=
  if s.tokens.isEmpty then .error .noTokens
  else do
    checkExports s
    if (s.occurrences .struct).isEmpty then .error .noStructs
    else if (s.occurrences .field).isEmpty then .error .noFields
    else .ok ()

/-- The second look: the name behind the first `exports`, which must be that of a struct in the table `known`. -/
def readExports (s : TokenStream) (known : Table Struct) : Except CompileError String :=
  match s.occurrences .exports with
  | [] => .error (.exportCount 0)
  | index :: _ => do
    let name := s.get (index + 1)
    Name.check name.lexeme
    if name.kind = .name .exports then
      if name.lexeme ∈ known then .ok name.lexeme else .error (.exportNotFound name.lexeme)
    else .error (.exportNameExpected (s.get index).position)

/-- The schema that the tokens of a text define, before its references are looked at. -/
def ofTokens (s : TokenStream) : Except CompileError Schema := do
  checkReady s
  let structs ← Schema.Parser.structs ∅ s.tokens
  let exports ← readExports s structs
  .ok { structs, exports }

/-- The analysed schema of a token stream. -/
def parse (s : TokenStream) : Except CompileError Schema := do
  let read ← ofTokens s
  read.analyze.2
  .ok read.analyze.1

/-- The files of a schema. -/
def generate (c : Luau.Config) (date : Timestamp) (s : Schema) : Except CompileError (List Luau.SourceFile) := do
  let content ← (Luau.render c date s).result
  .ok [⟨Luau.fileName s, content⟩]

/-- The files of the schema that a text defines. -/
def compile (c : Luau.Config) (date : Timestamp) (source : String) :
    Except CompileError (List Luau.SourceFile) := do
  let tokens ← (TokenStream.scan source).result
  let schema ← parse tokens
  generate c date schema

end BufferSchema.Guarded
