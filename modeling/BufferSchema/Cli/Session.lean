import BufferSchema.Cli.Host
import BufferSchema.FileTree
import BufferSchema.Text.Utf8

/-!
# Sessions

A session is a value that stands for everything the command touches: files, input that is not read yet,
what was printed and logged, and the clock. It serves the requests of the command, so a run can be
computed, and laws about runs can be stated of it.
-/

namespace BufferSchema

/-- What was shown on the error output. -/
inductive Session.Shown where
  | event (e : Log.Event)
  | text (s : String)
deriving DecidableEq, Repr

/-- All that a run of the command touches. -/
structure Session where
  files : FileTree := {}
  /-- The bytes of the input that are not read yet. -/
  input : List UInt8 := []
  printed : String := ""
  shown : List Session.Shown := []
  /-- Whether the error output shows colours. -/
  colour : Bool := false
  clock : Timestamp := ⟨1970, 1, 1, 0, 0, 0⟩
  /-- What the command is told about the time that it took. -/
  elapsed : String := ""
deriving DecidableEq, Repr

namespace Session

/-- The byte that ends a line. -/
def lineFeed : UInt8 := 10

/-- The first line, with its line feed if it has one, and the bytes behind it. -/
def splitLine (bytes : List UInt8) : List UInt8 × List UInt8 :=
  let behind := bytes.dropWhile (· != lineFeed)
  (bytes.takeWhile (· != lineFeed) ++ behind.take 1, behind.drop 1)

/-- The text of something shown. -/
def Shown.render (colour : Bool) : Shown → String
  | event e => e.line colour
  | text s => s

/-- The events logged so far. -/
def events (s : Session) : List Log.Event :=
  s.shown.filterMap fun
    | .event e => some e
    | .text _ => none

/-- What the error output shows so far. -/
def errorText (s : Session) : String := String.join (s.shown.map (Shown.render s.colour))

/-- What is at a path. -/
def kindOf? (s : Session) (path : String) : Option PathKind :=
  (s.files.lookup? path).map fun
    | .directory => .directory
    | .file _ => .file

/-- The bytes of a file. -/
def readFile (s : Session) (path : String) : Except String (List UInt8) :=
  match s.files.lookup? path with
  | some (.file bytes) => .ok bytes
  | some .directory => .error "is a directory"
  | none => .error "no such file"

/-- The session after a file was written. -/
def writeFile (s : Session) (path : String) (bytes : List UInt8) : Except String Session :=
  match s.files.write? path bytes with
  | some files => .ok { s with files }
  | none => .error "cannot be written"

instance : Host (StateM Session) where
  kindOf? path := do return (← get).kindOf? path
  readFile path := do return (← get).readFile path
  writeFile path content := do
    match (← get).writeFile path (Text.encode content) with
    | .ok s => set s; return .ok ()
    | .error detail => return .error detail
  readLine := do
    let s ← get
    let (line, rest) := splitLine s.input
    set { s with input := rest }
    return line
  print text := modify fun s => { s with printed := s.printed ++ text }
  printError text := modify fun s => { s with shown := s.shown ++ [.text text] }
  showsColours := do return (← get).colour
  log events := modify fun s => { s with shown := s.shown ++ events.map .event }
  now := do return (← get).clock
  elapsed := do return (← get).elapsed

end Session

end BufferSchema
