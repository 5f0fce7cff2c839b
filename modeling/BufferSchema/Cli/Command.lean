import BufferSchema.Cli.Arguments
import BufferSchema.Cli.Prompt
import BufferSchema.Diagnostic

/-!
# The command

`Command.run` takes the arguments of the command, runs what they ask for, and returns the exit status:
0 for success, 2 for arguments that make no run, else the number of the cause of failure.
-/

namespace BufferSchema.Command

/-- The first line of the explanation of the command. -/
def usage : String := "Usage: squishy-compiler [OPTIONS] [INPUT]\n"

/-- The explanation of the command. -/
def help : String :=
  "compile a Squishy schema (.squishy, .sqy) into a Luau module that writes and reads it\n\n" ++ usage ++
    "\nArguments:\n" ++
    "  [INPUT]  schema to compile; prompted for when omitted\n" ++
    "\nOptions:\n" ++
    "  -o, --output <OUTPUT>  directory the generated module is written to [default: ./]\n" ++
    "      --debug            log every stage and print the call path of errors\n" ++
    "  -v, --verbose...       log each token as well (repeatable)\n" ++
    "  -h, --help             Print help\n" ++
    "  -V, --version          Print version\n"

/-- The exit status where the arguments make no run. -/
def usageStatus : Nat := 2

section

variable {m : Type → Type} [Monad m] [Host m]

/-- Reports why a run failed and returns the exit status for it. -/
def report (debug : Bool) (e : CompileError) : m Nat := do
  let diagnostic : Diagnostic := { first := e }
  Host.printError (diagnostic.render (← Host.showsColours) debug)
  pure diagnostic.exitCode

/-- Answers arguments that make no run. -/
def refuse : ArgumentError → m Nat
  | .helpAsked => do
    Host.print help
    pure 0
  | .versionAsked => do
    Host.print (versionLine ++ "\n")
    pure 0
  | _ => do
    Host.printError usage
    pure usageStatus

/-- The settings that arguments give. Where they name no schema the settings are asked for, and of the
arguments only the verbosity counts. -/
def settingsOf (arguments : Arguments) : ExceptT CompileError m Settings :=
  match arguments.settings? with
  | some settings => pure settings
  | none => do
    let answers ← Settings.ask
    pure { answers with verbose := arguments.verbose }

/-- Runs the command. -/
def run (arguments : List String) : m Nat :=
  match Arguments.parse arguments with
  | .error e => refuse e
  | .ok arguments => do
    match ← (settingsOf arguments).run with
    | .error e => report false e
    | .ok settings =>
      match ← settings.run.run with
      | .error e => report settings.debug e
      | .ok _ => pure 0

end

end BufferSchema.Command
