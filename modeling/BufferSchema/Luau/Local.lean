import BufferSchema.Counting
import BufferSchema.Schema.Struct

/-!
# Names of local variables

A reader keeps each field in a local variable of the field's name. Some names belong to the
generated code itself; a field with such a name is kept in a variable of another name, which no
field and no other variable has.
-/

namespace BufferSchema.Luau

/-- The variables that generated code has of its own. -/
def ownVariables : List String :=
  ["cursor", "buff", "input", "reader", "writer", "sharedBuffer", "scheme"]

/-- Whether a name belongs to generated code: one of its variables, or the name of a helper. -/
def isTaken (name : String) : Bool :=
  name ∈ ownVariables || "read_".toList.isPrefixOf name.toList ||
    "write_".toList.isPrefixOf name.toList

theorem length_lt_length_append_underscore (name : String) : name.length < (name ++ "_").length := by
  rw [String.length_append]
  exact Nat.lt_add_of_pos_right (by decide)

/-- The name, followed by as many underscores as it takes to differ from all of `others`. -/
def fresh (others : List String) (name : String) : String :=
  if _h : name ∈ others then fresh others (name ++ "_") else name
termination_by others.countP fun other => name.length ≤ other.length
decreasing_by
  have hlt := length_lt_length_append_underscore name
  refine countP_lt_of_mem ?_ _h (by simp) (decide_eq_false (Nat.not_le.2 hlt))
  intro other _ h
  simp only [decide_eq_true_eq] at *
  omega

/-- The variables of fields with the given names. `fields` are the names of all fields, and
`renamed` the new names given so far. -/
def variablesFor (fields renamed : List String) : List String → List String
  | [] => []
  | name :: names =>
    if isTaken name then
      let new := fresh (fields ++ renamed) ("field_" ++ name)
      new :: variablesFor fields (new :: renamed) names
    else name :: variablesFor fields renamed names

/-- The variables of a struct's fields, one for each field. -/
def fieldVariables (s : Struct) : List String :=
  let names := s.fields.map (·.name)
  variablesFor names [] names

end BufferSchema.Luau
