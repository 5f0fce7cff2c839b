import BufferSchema.Luau.Body
import BufferSchema.Luau.Record
import BufferSchema.Luau.Template
import BufferSchema.Path
import BufferSchema.Schema.Order
import BufferSchema.Schema.Reading
import BufferSchema.Timestamp

/-!
# Generated modules

A schema becomes one Luau module: the types and helpers of the structs that others refer to, the type
of the exported struct, and the functions `write` and `read` for its records.
-/

namespace BufferSchema.Luau

/-- How modules are laid out and what their header says. -/
structure Config where
  /-- The number of spaces of one level of indentation. -/
  indentSpaces : Nat := 4
  /-- The number of spaces before the entries of the record that `read` returns. -/
  returnIndent : Nat := 12
  author : String := "squishy-compiler"
  /-- The expression of the instance that holds the runtime modules. -/
  runtimePath : String := "script.Parent"
  /-- The directory that the module is meant for. -/
  outputDir : String := "."
deriving DecidableEq, Repr

/-- One level of indentation. -/
def Config.indent (c : Config) : String := String.ofList (List.replicate c.indentSpaces ' ')

/-- The name of the file of a schema's module. -/
def fileName (s : Schema) : String := s.exports ++ ".luau"

/-- The helpers of the named structs, in the order of the names. -/
def helpers (s : Schema) (names : List String) (helper : Struct → String) : List String :=
  (structsOf s names).map helper

/-- What stands in each slot of the module of the schema `s`, whose exported struct is `exported`. -/
def slotContent (c : Config) (date : Timestamp) (s : Schema) (exported : Struct) : Slot → String
  | .file => Path.join c.outputDir (fileName s)
  | .author => c.author
  | .date => date.text
  | .brief => s!"encodes and decodes {exported.name} to and from a buffer"
  | .writerModule => s!"{c.runtimePath}.writer"
  | .readerModule => s!"{c.runtimePath}.reader"
  | .types => typeDeclarations s c.indent s.helperOrder
  | .writers => "\n".intercalate (helpers s s.helperOrder (writerHelper c.indent))
  | .readers => "\n".intercalate (helpers s s.helperOrder (readerHelper c.indent))
  | .exportType => exportDeclaration s c.indent
  | .writeSignature => s!"function scheme.write(input : {exported.name}) : buffer"
  | .writeBody => "\n".intercalate ((Body.ofStruct exported).writing.map (c.indent ++ ·))
  | .readSignature => s!"function scheme.read(buff : buffer) : {exported.name}"
  | .readBody => "\n".intercalate ((Body.ofStruct exported).reading.map (c.indent ++ ·))
  | .readReturn => s!"{c.indent}return " ++ layOutRecord c.returnIndent (Body.ofStruct exported).record

/-- The events that tell how a module was made. -/
def renderEvents (c : Config) (s : Schema) : List Log.Event :=
  let order := s.helperOrder
  let told (word : String) (helper : Struct → String) : List Log.Event :=
    (structsOf s order).map fun t => ⟨.debug, s!"{word} for '{t.name}':\n{helper t}"⟩
  Schema.orderEvent order :: ⟨.debug, s!"types:\n{typeDeclarations s c.indent order}"⟩ ::
    (told "writer" (writerHelper c.indent) ++ told "reader" (readerHelper c.indent))

/-- The text of the module of a schema. -/
def render (c : Config) (date : Timestamp) (s : Schema) : Logged String :=
  match s.exported? with
  | none => ⟨[], .error (.exportNotFound s.exports)⟩
  | some exported =>
    ⟨renderEvents c s, .ok (Template.codecModule.fill (slotContent c date s exported))⟩

/-- A generated file. -/
structure SourceFile where
  name : String
  content : String
deriving DecidableEq, Repr

/-- The file of a schema's module. -/
def generate (c : Config) (date : Timestamp) (s : Schema) : Logged SourceFile := do
  let content ← render c date s
  Logged.tell [⟨.debug, s!"generated '{fileName s}' ({content.utf8ByteSize} bytes)"⟩]
  pure ⟨fileName s, content⟩

/-- The file of the module of the schema that a text defines. -/
def compile (c : Config) (date : Timestamp) (source : String) : Except CompileError SourceFile := do
  let schema ← Schema.ofText source
  (generate c date schema).result

end BufferSchema.Luau
