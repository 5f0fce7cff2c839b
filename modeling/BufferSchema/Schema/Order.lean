import BufferSchema.Schema.Reference

/-!
# The order of helpers

A struct that others refer to needs helper code, which must stand behind the helpers that it uses.
`Schema.helperOrder` lists these structs so that each comes after those it refers to.
-/

namespace BufferSchema.Schema

mutual

/-- The list `sorted` with `name` at its end, after everything that `name` refers to. A name that is
listed already, or lies on the way `path` that led to it, adds nothing. -/
def place (s : Schema) (path sorted : List String) (name : String) : List String :=
  if name ∈ sorted then sorted
  else if _hp : name ∈ path then sorted
  else match _hf : s.structs.find? name with
    | none => sorted ++ [name]
    | some t => s.placeAll (name :: path) sorted t.references.keys ++ [name]
termination_by (s.unentered path, 0)
decreasing_by exact Prod.Lex.left _ _ (unentered_cons_lt (Table.mem_of_find?_eq_some _hf) _hp)

/-- Places several names, one after the other. -/
def placeAll (s : Schema) (path sorted : List String) : List String → List String
  | [] => sorted
  | name :: names => s.placeAll path (s.place path sorted name) names
termination_by names => (s.unentered path, names.length + 1)
decreasing_by
  · exact Prod.Lex.right _ (by simp)
  · exact Prod.Lex.right _ (by simp)

end

/-- The structs that need helpers though nothing else makes the walk reach them: the referenced ones,
the exported one excepted. -/
def helperRoots (s : Schema) : List String :=
  (s.structs.entries.filter fun (name, t) => name != s.exports && t.everReferenced).map Prod.fst

/-- The structs that need helper code, each after the structs that it refers to. -/
def helperOrder (s : Schema) : List String :=
  s.placeAll [] [] s.helperRoots

/-- The event that tells an order. -/
def orderEvent (order : List String) : Log.Event :=
  let names := ", ".intercalate order
  ⟨.debug, s!"dependency order: '{names}'"⟩

end BufferSchema.Schema
