import BufferSchema.Proofs.Luau.Syntax
import BufferSchema.Schema.Basic
import Mathlib.Logic.Function.Basic

/-!
# What the generated statements do

A statement calls a function on the one buffer and puts its results into variables. What a buffer is, which
values there are and what the functions of the runtime modules do is left open. The helper of a struct runs
the body that is generated for the struct; helpers call each other, and a run is given the depth to which
they may.
-/

namespace BufferSchema.Luau

section Data

variable (Buffer Value : Type)

/-- Puts a value into the buffer at a cursor and returns the cursor behind it, or fails. -/
abbrev Writer : Type := Buffer → Nat → Value → Option (Buffer × Nat)

/-- Takes a value from the buffer at a cursor and returns it with the cursor behind it, or fails. -/
abbrev Reader : Type := Buffer → Nat → Option (Nat × Value)

/-- What a function takes beside the buffer, the cursor and the value. -/
inductive Extra where
  | writer (w : Writer Buffer Value)
  | reader (r : Reader Buffer Value)
  | number (n : Nat)

/-- What a variable can hold. -/
inductive Datum where
  | buffer
  | number (n : Nat)
  | value (v : Value)
  | module (d : Direction)
  | writer (w : List (Extra Buffer Value) → Writer Buffer Value)
  | reader (r : List (Extra Buffer Value) → Reader Buffer Value)

/-- The variables and what they hold. -/
abbrev Env : Type := String → Option (Datum Buffer Value)

/-- The helpers of structs, by the names of the structs. -/
structure Helpers where
  write : String → Writer Buffer Value
  read : String → Reader Buffer Value

end Data

/-- The buffers and values that generated code works on, and the functions of its two runtime modules. -/
structure Runtime (Buffer Cell Value : Type) where
  cell : Buffer → Nat → Cell
  record : List (String × Value) → Value
  entry? : Value → String → Option Value
  entry?_record : ∀ entries, (entries.map Prod.fst).Nodup →
    ∀ e ∈ entries, entry? (record entries) e.1 = some e.2
  write : String → List (Extra Buffer Value) → Writer Buffer Value
  read : String → List (Extra Buffer Value) → Reader Buffer Value

variable {Buffer Cell Value : Type}

/-- What is handed to a function that has asked for more than the buffer, the cursor and a value. -/
def Datum.extra? : Datum Buffer Value → Option (Extra Buffer Value)
  | number n => some (.number n)
  | writer w => some (.writer (w []))
  | reader r => some (.reader (r []))
  | _ => none

/-- Calls a function. The results are the cursor and, from a reader, the value. -/
def Datum.call (b : Buffer) :
    Datum Buffer Value → List (Datum Buffer Value) → Option (List (Datum Buffer Value) × Buffer)
  | writer w, buffer :: number c :: value v :: extras => do
    let extras ← extras.mapM extra?
    let (b', c') ← w extras b c v
    some ([number c'], b')
  | reader r, buffer :: number c :: extras => do
    let extras ← extras.mapM extra?
    let (c', v) ← r extras b c
    some ([number c', value v], b)
  | _, _ => none

/-- Puts results into variables, one after the other. -/
def Env.assign (env : Env Buffer Value) : List String → List (Datum Buffer Value) → Env Buffer Value
  | name :: names, d :: ds => Env.assign (Function.update env name (some d)) names ds
  | _, _ => env

/-- The variables around all bodies: the runtime modules and the helpers of the structs `names`. -/
def Helpers.env (h : Helpers Buffer Value) (names : List String) : Env Buffer Value := fun name =>
  if name = Direction.write.runtime then some (.module .write)
  else if name = Direction.read.runtime then some (.module .read)
  else match names.find? fun n => Direction.write.helper n == name with
    | some n => some (.writer fun _ => h.write n)
    | none => (names.find? fun n => Direction.read.helper n == name).map fun n => .reader fun _ => h.read n

namespace Runtime

variable (R : Runtime Buffer Cell Value)

/-- What an expression stands for. -/
def eval (env : Env Buffer Value) : Expression → Option (Datum Buffer Value)
  | .var name => env name
  | .number n => some (.number n)
  | .member owner entry =>
    match env owner with
    | some (.module .write) => some (.writer (R.write entry))
    | some (.module .read) => some (.reader (R.read entry))
    | some (.value v) => (R.entry? v entry).map .value
    | _ => none

/-- Runs one statement. -/
def exec (b : Buffer) (env : Env Buffer Value) : Statement → Option (Env Buffer Value × Buffer)
  | .declare names => some (names.foldl (fun env name => Function.update env name none) env, b)
  | .call targets function arguments => do
    let f ← R.eval env function
    let ds ← arguments.mapM (R.eval env)
    let (results, b') ← f.call b ds
    some (env.assign targets results, b')

/-- Runs statements, one after the other. -/
def run (b : Buffer) (env : Env Buffer Value) : List Statement → Option (Env Buffer Value × Buffer)
  | [] => some (env, b)
  | s :: ss => do
    let (env', b') ← R.exec b env s
    run b' env' ss

/-- The number that a variable holds. -/
def number? (env : Env Buffer Value) (name : String) : Option Nat :=
  match env name with
  | some (.number n) => some n
  | _ => none

/-- The value that a variable holds. -/
def value? (env : Env Buffer Value) (name : String) : Option Value :=
  match env name with
  | some (.value v) => some v
  | _ => none

/-- The record that is built from what the variables hold. -/
def build (env : Env Buffer Value) (e : Constructor) : Option Value := do
  let values ← e.entries.mapM fun entry => value? env entry.2
  some (R.record ((e.entries.map Prod.fst).zip values))

/-- The function that runs the statements which write a record, and returns the cursor. -/
def bodyWriter (env : Env Buffer Value) (body : Body) : Writer Buffer Value := fun b c v => do
  let env := env.assign ["buff", "cursor", "input"] [.buffer, .number c, .value v]
  let (env', b') ← R.run b env body.writes
  let c' ← number? env' "cursor"
  some (b', c')

/-- The function that runs the statements which read a record, and returns the cursor and the record. -/
def bodyReader (env : Env Buffer Value) (body : Body) : Reader Buffer Value := fun b c => do
  let env := env.assign ["buff", "cursor"] [.buffer, .number c]
  let (env', _) ← R.run b env body.reads
  let c' ← number? env' "cursor"
  let v ← R.build env' body.result
  some (c', v)

/-- The helpers of the structs of a schema. A call that goes deeper than `depth` fails. -/
def helpers (s : Schema) : (depth : Nat) → Helpers Buffer Value
  | 0 => ⟨fun _ _ _ _ => none, fun _ _ _ => none⟩
  | depth + 1 =>
    let env := (helpers s depth).env s.structs.keys
    { write := fun name b c v => do
        let t ← s.structs.find? name
        R.bodyWriter env (Body.ofStruct t) b c v
      read := fun name b c => do
        let t ← s.structs.find? name
        R.bodyReader env (Body.ofStruct t) b c }

end Runtime

end BufferSchema.Luau
