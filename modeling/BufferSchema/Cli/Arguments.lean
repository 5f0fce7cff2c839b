import BufferSchema.Cli.Settings

/-!
# Arguments of the command

The command takes one schema and the options `-o DIR`, `--debug`, `-v`, `-h` and `-V` with their long
forms. `Arguments.items` reads the arguments as a list of items, which says what each argument is;
`Arguments.ofItems` takes the items one after the other. `Arguments.parse` does both.

An option that nobody knows is refused as soon as it is met. A value that is an argument of its own is
judged only when the next argument has been read, so what is wrong with the next argument comes first.
-/

namespace BufferSchema

/-- Why arguments do not make a run. -/
inductive ArgumentError where
  /-- The help text was asked for. -/
  | helpAsked
  /-- The version was asked for. -/
  | versionAsked
  /-- There is no such option, or there is a schema already. -/
  | unknown
  /-- An option lacks its value, or a value is empty. -/
  | badValue
  /-- An option that may be given once was given again. -/
  | repeated
  /-- A value was given to an option that takes none. -/
  | valueNotTaken
deriving DecidableEq, Repr

/-- What a list of arguments asks for. -/
structure Arguments where
  input : Option String := none
  output : Option String := none
  debug : Bool := false
  verbose : Nat := 0
deriving DecidableEq, Repr

namespace Arguments

/-- The greatest verbosity. -/
def maxVerbose : Nat := 255

/-- What one argument, or a letter of one, says. -/
inductive Item where
  | input (path : String)
  /-- The directory is an argument of its own, or it is missing. -/
  | output (dir? : Option String)
  /-- The directory stands in the same argument. -/
  | attachedOutput (dir : String)
  | debug
  | verbose
  | help
  | version
  | refused (e : ArgumentError)
deriving DecidableEq, Repr

/-- The items of one argument. -/
structure Reading where
  items : List Item
  /-- Whether the argument ends with the option for the directory and does not name one. -/
  wantsOutput : Bool := false

/-- What a long option without a value says. -/
def longFlag? (name : String) : Option Item :=
  if name = "debug" then some .debug
  else if name = "verbose" then some .verbose
  else if name = "help" then some .help
  else if name = "version" then some .version
  else none

/-- What the characters behind `--` say. -/
def readLong (cs : List Char) : Reading :=
  let name := String.ofList (cs.takeWhile (· != '='))
  let value? := (cs.dropWhile (· != '=')).tail?.map String.ofList
  if name = "output" then
    match value? with
    | some dir => { items := [.attachedOutput dir] }
    | none => { items := [], wantsOutput := true }
  else
    match longFlag? name, value? with
    | none, _ => { items := [.refused .unknown] }
    | some _, some _ => { items := [.refused .valueNotTaken] }
    | some item, none => { items := [item] }

/-- What the letters behind `-` say. The option for the directory takes all that is left, with or
without an equals sign in front. -/
def readShort : List Char → Reading
  | [] => { items := [] }
  | 'o' :: [] => { items := [], wantsOutput := true }
  | 'o' :: '=' :: dir => { items := [.attachedOutput (String.ofList dir)] }
  | 'o' :: dir => { items := [.attachedOutput (String.ofList dir)] }
  | c :: cs =>
    let later := readShort cs
    match shortFlag? c with
    | some item => { later with items := item :: later.items }
    | none => { items := [.refused .unknown] }
where
  shortFlag? (c : Char) : Option Item :=
    if c = 'v' then some .verbose
    else if c = 'h' then some .help
    else if c = 'V' then some .version
    else none

/-- Whether an argument starts with a hyphen and is more than a hyphen. -/
def isOption (argument : String) : Bool :=
  argument.toList.head? == some '-' && argument != "-"

/-- What one argument says. -/
def readOne (argument : String) : Reading :=
  match argument.toList with
  | '-' :: '-' :: cs => readLong cs
  | '-' :: c :: cs => readShort (c :: cs)
  | _ => { items := [.input argument] }

/-- The value that the next argument is, unless it is an option or there is none, and what is left. -/
def nextValue : List String → Option String × List String
  | [] => (none, [])
  | value :: rest => if isOption value then (none, value :: rest) else (some value, rest)

theorem length_nextValue (arguments : List String) :
    (nextValue arguments).2.length ≤ arguments.length := by
  cases arguments with
  | nil => simp [nextValue]
  | cons value rest =>
    simp only [nextValue]
    split <;> simp

/-- The items of a list of arguments. Behind `--` there are no options. -/
def items : List String → List Item
  | [] => []
  | argument :: rest =>
    if argument = "--" then rest.map .input
    else
      let reading := readOne argument
      if reading.wantsOutput then
        reading.items ++ .output (nextValue rest).1 :: items (nextValue rest).2
      else reading.items ++ items rest
termination_by arguments => arguments.length
decreasing_by
  · have := length_nextValue rest
    simp only [List.length_cons]
    omega
  · simp

/-- Whether an item is refused as soon as it is met. -/
def refusal? (hasInput : Bool) : Item → Option ArgumentError
  | .refused e => some e
  | .input _ => if hasInput then some .unknown else none
  | _ => none

/-- Whether an item is judged only when the next one has been met. -/
def Item.isDeferred : Item → Bool
  | .input _ | .output _ => true
  | _ => false

/-- Takes a directory, which must be the first and not be empty. -/
def takeOutput (a : Arguments) (dir : String) : Except ArgumentError Arguments :=
  if a.output.isSome then .error .repeated
  else if dir = "" then .error .badValue
  else .ok { a with output := some dir }

/-- Takes one item. -/
def take (a : Arguments) : Item → Except ArgumentError Arguments
  | .refused e => .error e
  | .input path => if path = "" then .error .badValue else .ok { a with input := some path }
  | .output none => .error .badValue
  | .output (some dir) => a.takeOutput dir
  | .attachedOutput dir => a.takeOutput dir
  | .debug => if a.debug then .error .repeated else .ok { a with debug := true }
  | .verbose => .ok { a with verbose := min (a.verbose + 1) maxVerbose }
  | .help => .error .helpAsked
  | .version => .error .versionAsked

/-- Whether a schema has been named when the item has been met. -/
def hasInput (a : Arguments) : Item → Bool
  | .input _ => true
  | _ => a.input.isSome

/-- Why the first of the items left is refused when `item` has been met but not been judged. -/
def refusalBehind? (a : Arguments) (item : Item) (rest : List Item) : Option ArgumentError :=
  if item.isDeferred then rest.head?.bind (refusal? (a.hasInput item)) else none

/-- Takes items one after the other. -/
def takeAll (a : Arguments) : List Item → Except ArgumentError Arguments
  | [] => .ok a
  | item :: rest =>
    match (refusal? a.input.isSome item).or (a.refusalBehind? item rest) with
    | some e => .error e
    | none => do (← a.take item).takeAll rest

/-- What a list of arguments asks for, or why it makes no run. -/
def parse (arguments : List String) : Except ArgumentError Arguments :=
  takeAll {} (items arguments)

/-- The settings, if a schema is named. -/
def settings? (a : Arguments) : Option Settings :=
  a.input.map fun input =>
    { input, output := a.output.getD Settings.defaultOutput, debug := a.debug, verbose := a.verbose }

end Arguments

end BufferSchema
