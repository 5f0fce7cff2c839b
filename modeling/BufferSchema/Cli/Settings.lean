import BufferSchema.Cli.Host
import BufferSchema.Luau.Module
import BufferSchema.Text.Utf8

/-!
# Running a compilation

A run reads the schema at a path, compiles it, and writes the module into a directory. It checks
what it can before it writes, so a run that fails has written nothing.
-/

namespace BufferSchema

/-- The name and version of the command. -/
def versionLine : String := "squishy-compiler 1.0.0"

/-- What one run compiles, where to, and how much it tells. -/
structure Settings where
  input : String
  output : String
  debug : Bool
  verbose : Nat
deriving DecidableEq, Repr

/-- The directory of the module where none is named. -/
def Settings.defaultOutput : String := "./"

/-- The threshold of the log. Any verbosity shows everything. -/
def Settings.logLevel (s : Settings) : Log.Level :=
  if 0 < s.verbose then .trace else if s.debug then .debug else .info

/-- The extensions of schema files, in lower case. -/
def schemaExtensions : List String := ["squishy", "sqy"]

/-- Whether a path has the extension of a schema, in any case. -/
def hasSchemaExtension (path : String) : Bool :=
  ((Path.extension? path).getD "").map Char.toLower ∈ schemaExtensions

section

variable {m : Type → Type} [Monad m] [Host m]

/-- Shows those of the events that the threshold lets through. -/
def showEvents (threshold : Log.Level) (events : List Log.Event) : ExceptT CompileError m Unit :=
  Host.log (m := m) (events.filter fun e => threshold.shownAt e.level)

/-- Shows the events of a stage and goes on with its result. -/
def showLogged {α : Type} (threshold : Log.Level) (x : Logged α) : ExceptT CompileError m α := do
  showEvents threshold x.events
  liftExcept x.result
where
  liftExcept (r : Except CompileError α) : ExceptT CompileError m α := ExceptT.mk (pure r)

/-- The text of the schema at a path, which must be a file with the extension of a schema. -/
def loadSchema (threshold : Log.Level) (path : String) : ExceptT CompileError m String := do
  match ← Host.kindOf? (m := m) path with
  | none => throw (.missingPath path)
  | some .directory => throw (.pathIsDirectory path)
  | some .file => do
    if !hasSchemaExtension path then
      throw (.wrongExtension path (", ".intercalate (schemaExtensions.map ("." ++ ·))))
    showEvents threshold [⟨.info, s!"reading '{path}'"⟩]
    match ← Host.readFile (m := m) path with
    | .error detail => throw (.io detail)
    | .ok bytes =>
      match Text.decode? bytes with
      | none => throw (.io Text.invalidEncoding)
      | some text => pure text

/-- Writes a text as `dir/name` and returns the path. What was there is replaced. -/
def writeOutput (threshold : Log.Level) (dir name content : String) : ExceptT CompileError m String := do
  match ← Host.kindOf? (m := m) dir with
  | some .directory => do
    let path := Path.join dir name
    if (← Host.kindOf? (m := m) path).isSome then
      showEvents threshold [⟨.warn, s!"'{path}' already exists and will be overwritten"⟩]
    match ← Host.writeFile (m := m) path content with
    | .error detail => throw (.io detail)
    | .ok () => pure path
  | _ => throw (.outputNotDirectory dir)

/-- Compiles the schema at the input path and writes its module. The result is the path written. -/
def Settings.run (s : Settings) : ExceptT CompileError m String := do
  let threshold := s.logLevel
  showEvents threshold [⟨.info, versionLine⟩]
  let source ← loadSchema threshold s.input
  let tokens ← showLogged threshold (TokenStream.scan source)
  if s.debug then showEvents threshold (tokens.tokens.map Token.listing)
  let schema ← showLogged threshold (Schema.parse tokens)
  let date ← Host.now (m := m)
  let file ← showLogged threshold (Luau.generate { outputDir := s.output } date schema)
  let path ← writeOutput threshold s.output file.name file.content
  let time ← Host.elapsed (m := m)
  showEvents threshold [⟨.info, s!"compiled in {time}, output written to '{path}'"⟩]
  pure path

end

end BufferSchema
