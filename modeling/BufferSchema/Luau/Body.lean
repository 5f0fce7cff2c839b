import BufferSchema.Luau.Codec
import BufferSchema.Luau.HostType
import BufferSchema.Luau.Local

/-!
# Statements of one struct

Writing a record runs one statement for each field: a codec writes the field's value at the cursor
and returns the cursor behind it. Reading runs the same codecs the other way into variables, from
which the record is then built. `Body` holds the steps; the statements are their written form.
-/

namespace BufferSchema.Luau

/-- How one field passes through a buffer: its codec, and the variable it is read into. -/
structure Step where
  field : String
  target : String
  codec : Codec
deriving DecidableEq, Repr

namespace Step

/-- The statement that writes the field of the record `input`. -/
def writeStatement (s : Step) : String :=
  let arguments := ", ".intercalate (["buff", "cursor", "input." ++ s.field] ++ s.codec.arguments .write)
  s!"cursor = {s.codec.function .write}({arguments})"

/-- The statement that reads the field into its variable. -/
def readStatement (s : Step) : String :=
  let arguments := ", ".intercalate (["buff", "cursor"] ++ s.codec.arguments .read)
  s!"cursor, {s.target} = {s.codec.function .read}({arguments})"

/-- The entry of the record that is built. -/
def entry (s : Step) : String := s!"{s.field} = {s.target};"

end Step

/-- The steps of a struct, one for each field. -/
structure Body where
  steps : List Step
deriving DecidableEq, Repr

namespace Body

/-- The steps of a struct's fields, in their order. -/
def ofStruct (s : Struct) : Body :=
  ⟨(s.fields.zip (fieldVariables s)).map fun (f, v) => ⟨f.name, v, f.type.codec⟩⟩

/-- The statements that write a record. -/
def writing (b : Body) : List String := b.steps.map Step.writeStatement

/-- The statements that read the fields of a record, after the declaration of their variables. -/
def reading (b : Body) : List String :=
  let names := ", ".intercalate (b.steps.map (·.target))
  ("local " ++ names) :: b.steps.map Step.readStatement

/-- The expression that builds the record, on one line. -/
def record (b : Body) : String :=
  let entries := " ".intercalate (b.steps.map Step.entry)
  s!"\x7b {entries} \x7d"

end Body

/-- Lines put below each other, each after the first behind `indent`. -/
def below (indent : String) (lines : List String) : String :=
  ("\n" ++ indent).intercalate lines

/-- The function that writes a struct which others refer to. -/
def writerHelper (indent : String) (s : Struct) : String :=
  let statements := below indent (Body.ofStruct s).writing
  s!"local function write_{s.name}(buff : buffer, cursor : number, input : {s.name}) : number\n" ++
    s!"{indent}{statements}\n" ++ s!"{indent}return cursor\n" ++ "end\n"

/-- The function that reads a struct which others refer to. -/
def readerHelper (indent : String) (s : Struct) : String :=
  let body := Body.ofStruct s
  let statements := below indent body.reading
  s!"local function read_{s.name}(buff : buffer, cursor : number) : (number, {s.name})\n" ++
    s!"{indent}{statements}\n" ++ s!"{indent}return cursor, {body.record}\n" ++ "end\n"

end BufferSchema.Luau
