import BufferSchema.Cli.Command
import BufferSchema.Duration
import Std.Time.Zoned

/-!
# The program

The command on a machine: files of the file system, standard input and output, and the clock.
-/

namespace BufferSchema

/-- What a run on a machine knows: when it started, and whether the error output shows colours. -/
structure Machine where
  started : Nat
  colour : Bool

namespace Machine

/-- The outcome of an action, or what the system said when it failed. -/
def attempt {α : Type} (action : IO α) : IO (Except String α) := do
  match ← action.toBaseIO with
  | .ok a => return .ok a
  | .error e => return .error (toString e)

/-- Whether a path leads to something. -/
def isThere (path : String) : IO Bool := do
  return (← attempt (IO.FS.realPath path)).isOk

/-- The bytes of the input up to the next line feed, behind those of `before`. -/
partial def readLine (input : IO.FS.Stream) (before : Array UInt8) : IO (Array UInt8) := do
  let bytes ← input.read 1
  match bytes.toList with
  | [] => return before
  | b :: _ => if b == 10 then return before.push b else readLine input (before.push b)

/-- The date and time of day where the program runs. -/
def clock : IO Timestamp := do
  let t ← Std.Time.PlainDateTime.now
  return ⟨t.year.toInt, t.month.val.toNat, t.day.val.toNat, t.hour.val.toNat, t.minute.val.toNat,
    t.second.val.toNat⟩

instance : Host (ReaderT Machine IO) where
  kindOf? path := do
    if path == "" then return none
    if ← isThere (path ++ "/.") then return some .directory
    return if ← isThere path then some .file else none
  readFile path := do return (← attempt (IO.FS.readBinFile path)).map (·.toList)
  writeFile path content := do attempt (IO.FS.writeFile path content)
  readLine := do return (← readLine (← IO.getStdin) #[]).toList
  print text := do
    let output ← IO.getStdout
    output.putStr text
    output.flush
  printError text := do (← IO.getStderr).putStr text
  showsColours := do return (← read).colour
  log events := do
    let output ← IO.getStderr
    for e in events do
      output.putStr (e.line (← read).colour)
  now := do clock
  elapsed := do return Duration.text ((← IO.monoNanosNow) - (← read).started)

end Machine

end BufferSchema

/-- Runs the command with the given arguments. -/
def main (arguments : List String) : IO UInt32 := do
  let machine : BufferSchema.Machine :=
    { started := ← IO.monoNanosNow, colour := ← (← IO.getStderr).isTty }
  let status ← (BufferSchema.Command.run arguments : ReaderT BufferSchema.Machine IO Nat).run machine
  return status.toUInt32
