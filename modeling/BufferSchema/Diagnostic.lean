import BufferSchema.CompileError
import BufferSchema.Text.Style

/-!
# Diagnostics

A diagnostic is what a user is shown when a compilation has failed: one or more causes, of which
the first decides the exit status.
-/

namespace BufferSchema

open Text (paint)

/-- A report of the cause that ended a compilation, and of further ones. -/
structure Diagnostic where
  first : CompileError
  further : List CompileError := []
deriving DecidableEq, Repr

namespace Diagnostic

/-- All causes, the one that ended the compilation first. -/
def errors (d : Diagnostic) : List CompileError := d.first :: d.further

/-- The report with one more cause at its end. -/
def add (d : Diagnostic) (e : CompileError) : Diagnostic := { d with further := d.further ++ [e] }

/-- The exit status that the report asks for. -/
def exitCode (d : Diagnostic) : Nat := d.first.code

/-- The line of one cause, with its number if the causes are numbered. -/
def line (colour numbered : Bool) (e : CompileError) (index : Nat) : String :=
  let number := if numbered then paint colour .bold (toString index) ++ ": " else ""
  number ++ paint colour .red "[ERROR]" ++ " " ++ e.message ++ "\n"

/-- The heading under which a report for debugging tells the call path. -/
def stackHeading (colour : Bool) : String := "\n" ++ paint colour .blue "[STACK]" ++ "\n"

/-- The report as text, one line for each cause. The causes are numbered from 0 if there is more than
one. A report for debugging ends with the heading of the call path here: the path itself, captured
where the report was made, is no matter of the causes and is left out. -/
def render (colour debug : Bool) (d : Diagnostic) : String :=
  let numbered := !d.further.isEmpty
  String.join (d.errors.zipIdx.map fun (e, i) => line colour numbered e i) ++
    if debug then stackHeading colour else ""

@[simp] theorem exitCode_add (d : Diagnostic) (e : CompileError) : (d.add e).exitCode = d.exitCode := rfl

@[simp] theorem errors_add (d : Diagnostic) (e : CompileError) : (d.add e).errors = d.errors ++ [e] := rfl

end Diagnostic

end BufferSchema
