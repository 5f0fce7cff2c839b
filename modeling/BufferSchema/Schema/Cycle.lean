import BufferSchema.CompileError
import BufferSchema.Schema.Reference

/-!
# The search for cycles

Every struct must be buildable from built-in types, so no struct may contain itself, directly or
through others, and no field may be made of a struct that is not there. The search follows the
references from every struct. It goes down a way of structs, each referring to the next, and
keeps the structs that are known to be good, so that none is searched twice.
-/

namespace BufferSchema.Schema

/-- What is wrong when the way `path`, the last struct first, comes back to `name`. A struct that
refers to itself and is all there is on the way is told apart from a longer cycle. -/
def revisit (s : Schema) (path : List String) (name : String) : CompileError :=
  if path.length = 1 then
    .selfReference name (((s.structs.find? name).map (·.fieldsReferencing name)).getD [])
  else .cyclicReference (path.reverse ++ [name])

mutual

/-- Searches the references from the struct `name`, to which the way `path` has led. The result is
`good` and all structs found good on the way. -/
def search (s : Schema) (path good : List String) (name : String) : Except CompileError (List String) :=
  if name ∈ good then .ok good
  else if _hp : name ∈ path then .error (s.revisit path name)
  else match _hf : s.structs.find? name with
    | none => .error (.unknownType name (path.headD ""))
    | some t =>
      match s.searchAll (name :: path) good t.references.keys with
      | .error e => .error e
      | .ok good' => .ok (name :: good')
termination_by (s.unentered path, 0)
decreasing_by exact Prod.Lex.left _ _ (unentered_cons_lt (Table.mem_of_find?_eq_some _hf) _hp)

/-- Searches from several structs, one after the other. -/
def searchAll (s : Schema) (path good : List String) :
    List String → Except CompileError (List String)
  | [] => .ok good
  | name :: names =>
    match s.search path good name with
    | .error e => .error e
    | .ok good' => s.searchAll path good' names
termination_by names => (s.unentered path, names.length + 1)
decreasing_by
  · exact Prod.Lex.right _ (by simp)
  · exact Prod.Lex.right _ (by simp)

end

/-- Fails if some struct contains itself or a field is made of a struct that is not there. -/
def checkAcyclic (s : Schema) : Except CompileError Unit :=
  match s.searchAll [] [] s.structs.keys with
  | .error e => .error e
  | .ok _ => .ok ()

end BufferSchema.Schema
