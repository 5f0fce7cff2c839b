import BufferSchema.Log
import BufferSchema.Timestamp

/-!
# What the command needs from outside

The command looks at files, reads answers, prints, and asks for the time. `Host` is the list of these
requests. The command is written for any monad that serves them, so the same command runs on a
machine and on a value that stands for one.
-/

namespace BufferSchema

/-- What a path leads to. -/
inductive PathKind where
  | directory
  | file
deriving DecidableEq, Repr

/-- The requests that a monad can serve. -/
class Host (m : Type → Type) where
  /-- What a path leads to, or `none` if nothing is there. -/
  kindOf? (path : String) : m (Option PathKind)
  /-- The bytes of a file, or why they could not be read. -/
  readFile (path : String) : m (Except String (List UInt8))
  /-- Makes a file of a text, or tells why that failed. -/
  writeFile (path content : String) : m (Except String Unit)
  /-- The bytes of the next line of the input, with its line feed; none at the end. -/
  readLine : m (List UInt8)
  /-- Prints on the output. -/
  print (text : String) : m Unit
  /-- Prints on the error output. -/
  printError (text : String) : m Unit
  /-- Whether the error output shows colours. -/
  showsColours : m Bool
  /-- Shows events of the log. -/
  log (events : List Log.Event) : m Unit
  /-- The date and the time of day. -/
  now : m Timestamp
  /-- The time since the command started, in words. -/
  elapsed : m String

end BufferSchema
