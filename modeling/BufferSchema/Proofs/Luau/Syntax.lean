import BufferSchema.Luau.Body

/-!
# The statements of generated bodies, as syntax

The bodies that are generated for a struct consist of very few kinds of statements. Here they are given as
syntax trees whose texts are the lines that the generator makes.
-/

namespace BufferSchema

namespace Luau

/-- A variable, an entry of what a variable holds, or a number. -/
inductive Expression where
  | var (name : String)
  | member (owner entry : String)
  | number (n : Nat)
deriving DecidableEq, Repr

def Expression.text : Expression → String
  | var name => name
  | member owner entry => owner ++ "." ++ entry
  | number n => toString n

@[simp] theorem Expression.text_var (name : String) : (var name).text = name := rfl

@[simp] theorem Expression.text_member (owner entry : String) :
    (member owner entry).text = owner ++ "." ++ entry :=
  rfl

@[simp] theorem Expression.text_number (n : Nat) : (number n).text = toString n := rfl

/-- The declaration of variables, or a call whose results are put into variables. -/
inductive Statement where
  | declare (names : List String)
  | call (targets : List String) (function : Expression) (arguments : List Expression)
deriving DecidableEq, Repr

def Statement.text : Statement → String
  | declare names => "local " ++ ", ".intercalate names
  | call targets function arguments =>
    ", ".intercalate targets ++ " = " ++ function.text ++ "(" ++
      ", ".intercalate (arguments.map Expression.text) ++ ")"

/-- A record with the given entries, each the value of a variable. -/
structure Constructor where
  entries : List (String × String)
deriving DecidableEq, Repr

def Constructor.text (c : Constructor) : String :=
  "\x7b " ++ " ".intercalate (c.entries.map fun (name, v) => name ++ " = " ++ v ++ ";") ++ " \x7d"

end Luau

open Luau

/-- The function of the runtime called `name`, as an expression. -/
def Direction.runtimeMember (d : Direction) (name : String) : Expression :=
  .member d.runtime (d.verb ++ "_" ++ name)

theorem Direction.text_runtimeMember (d : Direction) (name : String) :
    (d.runtimeMember name).text = d.runtimeFunction name := by
  cases d <;> simp [runtimeMember, runtimeFunction, String.append_assoc, toString]

/-- The function of one element, as an expression. -/
def Direction.elementExpression (d : Direction) : Element → Expression
  | .builtin b => d.runtimeMember b.name
  | .struct name => .var (d.helper name)

theorem Direction.text_elementExpression (d : Direction) (e : Element) :
    (d.elementExpression e).text = d.elementFunction e := by
  cases e with
  | builtin b => exact d.text_runtimeMember b.name
  | struct name => rfl

namespace Codec

/-- The function of a codec, as an expression. -/
def expression (d : Direction) : Codec → Expression
  | single element => d.elementExpression element
  | array .. => d.runtimeMember "array"
  | dynamicArray _ => d.runtimeMember "dynamicArray"
  | bits _ => d.runtimeMember "boolArray"
  | dynamicBits => d.runtimeMember "dynamicBoolArray"
  | map _ => d.runtimeMember "map"
  | shortMap _ => d.runtimeMember "smap"

/-- Printing the function of a codec gives the name that it is called by. -/
theorem text_expression (d : Direction) (c : Codec) : (c.expression d).text = c.function d := by
  cases c with
  | single element => exact d.text_elementExpression element
  | _ => exact d.text_runtimeMember _

/-- What the function takes beside the buffer, the cursor and the value, as expressions. -/
def extras (d : Direction) : Codec → List Expression
  | single _ | dynamicBits => []
  | array element count => [d.elementExpression element, .number count]
  | bits count => [.number count]
  | dynamicArray element | map element | shortMap element => [d.elementExpression element]

theorem text_extras (d : Direction) (c : Codec) : (c.extras d).map Expression.text = c.arguments d := by
  cases c <;> simp [extras, arguments, d.text_elementExpression]

end Codec

namespace Luau

namespace Step

/-- The statement that writes the field of the record `input`. -/
def write (s : Step) : Statement :=
  .call ["cursor"] (s.codec.expression .write)
    (.var "buff" :: .var "cursor" :: .member "input" s.field :: s.codec.extras .write)

/-- The statement that reads the field into its variable. -/
def read (s : Step) : Statement :=
  .call ["cursor", s.target] (s.codec.expression .read)
    (.var "buff" :: .var "cursor" :: s.codec.extras .read)

/-- A statement that writes is printed as the line that is generated for it. -/
theorem text_write (s : Step) : s.write.text = s.writeStatement := by
  simp [write, Statement.text, writeStatement, s.codec.text_expression, s.codec.text_extras,
    String.append_assoc, toString]

theorem text_read (s : Step) : s.read.text = s.readStatement := by
  simp [read, Statement.text, readStatement, s.codec.text_expression, s.codec.text_extras,
    String.append_assoc, toString]

end Step

namespace Body

/-- The statements that write a record. -/
def writes (b : Body) : List Statement := b.steps.map Step.write

/-- The statements that read the fields of a record. -/
def reads (b : Body) : List Statement := .declare (b.steps.map (·.target)) :: b.steps.map Step.read

/-- The record that is built from the variables. -/
def result (b : Body) : Constructor := ⟨b.steps.map fun s => (s.field, s.target)⟩

/-- The lines of a body are the statements of it, printed. -/
theorem text_writes (b : Body) : b.writes.map Statement.text = b.writing := by
  rw [writes, writing, List.map_map]
  exact List.map_congr_left fun s _ => s.text_write

theorem text_reads (b : Body) : b.reads.map Statement.text = b.reading := by
  rw [reads, reading, List.map_cons, List.map_map]
  have hsteps : b.steps.map (Statement.text ∘ Step.read) = b.steps.map Step.readStatement :=
    List.map_congr_left fun s _ => s.text_read
  rw [hsteps]
  rfl

theorem text_result (b : Body) : b.result.text = b.record := by
  have hentries : b.result.entries.map (fun (name, v) => name ++ " = " ++ v ++ ";") = b.steps.map Step.entry := by
    rw [result, List.map_map]
    apply List.map_congr_left
    intro s _
    simp [Step.entry, toString, String.append_assoc]
  rw [Constructor.text, hentries]
  simp [record, toString, String.append_assoc]

end Body

end Luau

end BufferSchema
