import BufferSchema.Schema.Struct
import BufferSchema.Log

/-!
# Schemas

A schema is a table of structs, in the order of their definition, and the name of the struct
that it exports.
-/

namespace BufferSchema

/-- A schema. -/
structure Schema where
  structs : Table Struct := ∅
  exports : String := ""
deriving DecidableEq, Inhabited

namespace Schema

/-- The exported struct. -/
def exported? (s : Schema) : Option Struct := s.structs.find? s.exports

/-- The structs that the struct called `name` refers to, in the order of first use. -/
def targets (s : Schema) (name : String) : List String :=
  match s.structs.find? name with
  | some t => t.references.keys
  | none => []

/-- The schema with an empty struct, which replaces one of the same name in its place. -/
def declare (s : Schema) (name : String) (position : Text.Position) : Schema :=
  { s with structs := s.structs.insert name { name, position } }

/-- The schema with one more field in the struct called `name`. -/
def addField (s : Schema) (name : String) (f : Field) : Schema :=
  { s with structs := s.structs.modify name (·.push f) }

/-- The events that describe one struct. -/
def structEvents (t : Struct) : List Log.Event :=
  let heading := s!"struct '{t.name}' at '{t.position}': {t.fields.length} fields, " ++
    s!"ever referenced: {t.everReferenced}"
  ⟨.debug, heading⟩ ::
    (t.referencedBy.entries.map fun (source, count) =>
      ⟨.debug, s!"  referenced by '{source}' {count} times"⟩) ++
    (t.references.entries.map fun (target, fields) =>
      ⟨.debug, s!"  references '{target}' from {fields.length} fields"⟩)

/-- The events that describe a schema. -/
def events (s : Schema) : List Log.Event :=
  ⟨.debug, s!"parsed {s.structs.size} structs, exporting '{s.exports}'"⟩ ::
    s.structs.values.flatMap structEvents

end Schema

end BufferSchema
