import BufferSchema.Schema.Analysis
import BufferSchema.Schema.Parser

/-!
# From text to a sound schema

Scanning, reading and analysing a text, one after the other, with what each stage tells.
-/

namespace BufferSchema.Schema

/-- The analysed schema of a token stream. -/
def parse (tokens : TokenStream) : Logged Schema := do
  let read ← Logged.ofExcept (Schema.ofTokens tokens)
  let (marked, verdict) := read.analyze
  Logged.ofExcept verdict
  Logged.tell marked.events
  pure marked

/-- The analysed schema that a text defines. -/
def ofText (source : String) : Except CompileError Schema := do
  let tokens ← (TokenStream.scan source).result
  (parse tokens).result

end BufferSchema.Schema
