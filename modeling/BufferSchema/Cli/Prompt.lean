import BufferSchema.Cli.Settings

/-!
# Asking for settings

Where no schema is named in the arguments, the command asks three questions. An answer is one line of the
input, without the blanks around it; at the end of the input every answer is empty.
-/

namespace BufferSchema

namespace Prompt

/-- The question for the schema. -/
def forInput : String := "path to the schema: "

/-- The question for the directory of the module. -/
def forOutput : String := s!"output directory [{Settings.defaultOutput}]: "

/-- The question whether the run is to be debugged. -/
def forDebug : String := "debug mode? [y/N]: "

/-- The directory that an answer names. No answer leaves the module where the command runs. -/
def outputOf (answer : String) : String :=
  if answer = "" then Settings.defaultOutput else answer

/-- Whether an answer means yes. In what case it is written does not matter. -/
def isYes (answer : String) : Bool := answer.map Char.toLower ∈ ["y", "yes"]

section

variable {m : Type → Type} [Monad m] [Host m]

/-- Asks a question and returns the answer. Bytes that are no text are no answer. -/
def ask (question : String) : ExceptT CompileError m String := do
  Host.print (m := m) question
  match Text.decode? (← Host.readLine (m := m)) with
  | none => throw (.io Text.invalidEncoding)
  | some line => pure (Text.trim line)

end

end Prompt

/-- The settings that the answers to the three questions give. -/
def Settings.ask {m : Type → Type} [Monad m] [Host m] : ExceptT CompileError m Settings := do
  let input ← Prompt.ask Prompt.forInput
  let output ← Prompt.ask Prompt.forOutput
  let debug ← Prompt.ask Prompt.forDebug
  pure { input, output := Prompt.outputOf output, debug := Prompt.isYes debug, verbose := 0 }

end BufferSchema
