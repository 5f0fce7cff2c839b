import BufferSchema.Counting
import BufferSchema.Schema.Basic

/-!
# References between structs

A struct refers to another if one of its fields is made of it. The walks along references in the
modules `Cycle` and `Order` go from struct to struct and remember the structs on the way to the
one they are at. Such a walk ends because the structs not yet on the way become fewer:
`Schema.unentered` counts them.
-/

namespace BufferSchema

namespace Schema

/-- The number of structs that are not on the way `path`. -/
def unentered (s : Schema) (path : List String) : Nat :=
  s.structs.keys.countP fun name => name ∉ path

theorem unentered_cons_lt {s : Schema} {path : List String} {name : String} (h : name ∈ s.structs)
    (hp : name ∉ path) : s.unentered (name :: path) < s.unentered path := by
  refine countP_lt_of_mem ?_ h (by simpa using hp) (by simp)
  intro a _ ha
  simp only [List.mem_cons, not_or, decide_eq_true_eq] at *
  exact ha.2

end Schema

end BufferSchema
