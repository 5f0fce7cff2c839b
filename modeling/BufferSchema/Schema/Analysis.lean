import BufferSchema.Schema.Cycle

/-!
# Analysis

The analysis of a schema marks each struct with the structs that refer to it. Then it refuses a
schema whose exported struct is referred to, and one whose references are unknown or go round.
The marks stay on the schema when it is refused.
-/

namespace BufferSchema.Schema

/-- The structs that refer to `target`, in the order of the schema. -/
def referrers (s : Schema) (target : String) : List Struct :=
  s.structs.values.filter fun t => target ∈ t.references

/-- The schema in which every struct is marked once by every struct that refers to it. -/
def markReferences (s : Schema) : Schema :=
  { s with structs := s.structs.mapValues fun name t =>
      (s.referrers name).foldl (fun t source => t.markReferencedBy source.name) t }

/-- Fails if the exported struct is marked as referred to, or if the references are not sound. -/
def verdict (s : Schema) : Except CompileError Unit :=
  match s.exported? with
  | some t =>
    if t.everReferenced then .error (.exportReferenced t.name t.referencedBy.keys) else s.checkAcyclic
  | none => s.checkAcyclic

/-- The marked schema, and whether it is sound. -/
def analyze (s : Schema) : Schema × Except CompileError Unit :=
  (s.markReferences, s.markReferences.verdict)

end BufferSchema.Schema
