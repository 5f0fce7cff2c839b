import BufferSchema.Schema.TypeRef
import BufferSchema.Table
import BufferSchema.Text.Position

/-!
# Structs

A struct is a list of named, typed fields. Beside the fields it keeps an index of the structs
that its fields refer to, and the marks that the analysis of a whole schema leaves on it.
-/

namespace BufferSchema

open Text (Position)

/-- A named value of a struct. -/
structure Field where
  name : String
  type : TypeRef
deriving DecidableEq, Repr

/-- A struct of a schema. -/
structure Struct where
  name : String
  /-- The place of the keyword that introduces the struct. -/
  position : Position
  fields : List Field := []
  /-- For each struct that fields refer to, the numbers of these fields. -/
  references : Table (List Nat) := ∅
  /-- Whether some struct is known to refer to this one. -/
  everReferenced : Bool := false
  /-- For each struct that refers to this one, how often that was found. -/
  referencedBy : Table Nat := ∅
deriving DecidableEq

namespace Struct

/-- The struct with one more field, which is indexed if its type names a struct. -/
def push (s : Struct) (f : Field) : Struct :=
  let references :=
    match f.type.element.structName? with
    | some target => s.references.alter target fun indices? => indices?.getD [] ++ [s.fields.length]
    | none => s.references
  { s with fields := s.fields ++ [f], references }

/-- The first field of a given name. -/
def field? (s : Struct) (name : String) : Option Field := s.fields.find? (·.name == name)

/-- The fields that refer to `target`, each as `field:type`. -/
def fieldsReferencing (s : Struct) (target : String) : List String :=
  (((s.references.find? target).getD []).filterMap fun i => s.fields[i]?).map fun f =>
    s!"{f.name}:{f.type.name}"

/-- The struct with one more reference from the struct `source` on record. -/
def markReferencedBy (s : Struct) (source : String) : Struct :=
  { s with
    everReferenced := true
    referencedBy := s.referencedBy.alter source fun count? => count?.getD 0 + 1 }

@[simp] theorem fields_push (s : Struct) (f : Field) : (s.push f).fields = s.fields ++ [f] := rfl

@[simp] theorem name_push (s : Struct) (f : Field) : (s.push f).name = s.name := rfl

@[simp] theorem position_push (s : Struct) (f : Field) : (s.push f).position = s.position := rfl

@[simp] theorem name_markReferencedBy (s : Struct) (source : String) :
    (s.markReferencedBy source).name = s.name := rfl

@[simp] theorem references_markReferencedBy (s : Struct) (source : String) :
    (s.markReferencedBy source).references = s.references := rfl

@[simp] theorem everReferenced_markReferencedBy (s : Struct) (source : String) :
    (s.markReferencedBy source).everReferenced = true := rfl

end Struct

end BufferSchema
