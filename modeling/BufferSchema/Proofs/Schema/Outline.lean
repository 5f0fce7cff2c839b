import BufferSchema.Schema.Basic
import BufferSchema.Token.Basic
import BufferSchema.Proofs.Naming
import Mathlib.Logic.Relation

/-!
# Outlines of schemas and how they are written

The outline of a schema is what its text says: the structs with their fields, in their order, and the
exported name. Places and the marks of the analysis are left out. `Outline.Spelling` lists every way to
write an outline as words, and `Outline.Valid` says which outlines make sense.
-/

namespace BufferSchema

/-- The ways to write a type. The size of an array may have zeros in front. -/
inductive TypeRef.Spelling : TypeRef → List String → Prop where
  | scalar {e : Element} : Spelling ⟨e, .scalar⟩ [e.name]
  | fixedArray {e : Element} {count : Nat} {digits : String} (hne : digits.toList ≠ [])
      (hdigits : ∀ c ∈ digits.toList, c.isDigit = true) (hcount : Nat.ofDigitChars 10 digits.toList 0 = count) :
      Spelling ⟨e, .fixedArray count⟩ ["[", digits, "]", e.name]
  | dynamicArray {e : Element} : Spelling ⟨e, .dynamicArray⟩ ["[", "]", e.name]
  | map {e : Element} : Spelling ⟨e, .map⟩ ["\x7b", e.name, "\x7d", "map"]
  | shortMap {e : Element} : Spelling ⟨e, .shortMap⟩ ["\x7b", e.name, "\x7d", "smap"]

/-- The ways to write a field, with a colon or without. -/
inductive Field.Spelling : Field → List String → Prop where
  | plain {name : String} {type : TypeRef} {ws : List String} (h : type.Spelling ws) :
      Spelling ⟨name, type⟩ ("field" :: name :: ws)
  | colon {name : String} {type : TypeRef} {ws : List String} (h : type.Spelling ws) :
      Spelling ⟨name, type⟩ ("field" :: name :: ":" :: ws)

/-- What the text of a struct says. -/
structure Declaration where
  name : String
  fields : List Field
deriving DecidableEq, Repr

/-- The ways to write a struct. -/
inductive Declaration.Spelling : Declaration → List String → Prop where
  | intro {name : String} {fs : List Field} {wss : List (List String)}
      (h : List.Forall₂ Field.Spelling fs wss) :
      Spelling ⟨name, fs⟩ ("struct" :: name :: "\x7b" :: (wss.flatten ++ ["\x7d"]))

/-- What the text of a schema says. -/
structure Outline where
  structs : List Declaration
  exports : String
deriving DecidableEq, Repr

namespace Outline

/-- The ways to write a schema: its structs in their order, and then what it exports. -/
inductive Spelling : Outline → List String → Prop where
  | intro {ds : List Declaration} {wss : List (List String)} {name : String}
      (h : List.Forall₂ Declaration.Spelling ds wss) :
      Spelling ⟨ds, name⟩ (wss.flatten ++ ["exports", name])

/-- The names of the structs. -/
def names (o : Outline) : List String := o.structs.map (·.name)

/-- Some field of the struct called `source` is made of the struct called `target`. -/
def Refers (o : Outline) (source target : String) : Prop :=
  ∃ d ∈ o.structs, d.name = source ∧ ∃ f ∈ d.fields, f.type.element.structName? = some target

/-- A name that a schema may give: without fault, and no keyword. -/
def Nameable (name : String) : Prop := Name.Faultless name ∧ ∀ k : Keyword, name ≠ k.text

instance (name : String) : Decidable (Nameable name) :=
  decidable_of_iff (Name.fault? name = none ∧ Keyword.ofText? name = none) <| by
    rw [Name.fault?_eq_none_iff]
    refine and_congr_right fun _ => ⟨fun h k hk => ?_, fun h => ?_⟩
    · simp [Keyword.ofText?_eq_some_iff.2 hk] at h
    · cases hk : Keyword.ofText? name with
      | none => rfl
      | some k => exact absurd (Keyword.ofText?_eq_some_iff.1 hk) (h k)

/-- An outline that a schema can have. -/
structure Valid (o : Outline) : Prop where
  nameable : ∀ d ∈ o.structs, Nameable d.name
  not_builtin : ∀ d ∈ o.structs, Builtin.ofName? d.name = none
  nodup : o.names.Nodup
  fields_ne_nil : ∀ d ∈ o.structs, d.fields ≠ []
  fields_nameable : ∀ d ∈ o.structs, ∀ f ∈ d.fields, Nameable f.name
  fields_nodup : ∀ d ∈ o.structs, (d.fields.map (·.name)).Nodup
  declared : ∀ source target, o.Refers source target → target ∈ o.names
  sizes : ∀ d ∈ o.structs, ∀ f ∈ d.fields, ∀ count, f.type.shape = .fixedArray count →
    1 ≤ count ∧ count ≤ 2 ^ 64 - 1
  acyclic : ∀ name, ¬ Relation.TransGen o.Refers name name
  exported : o.exports ∈ o.names
  unreferenced : ∀ name, ¬ o.Refers name o.exports

end Outline

/-- What the text of a struct said. -/
def Struct.declaration (s : Struct) : Declaration := ⟨s.name, s.fields⟩

/-- What the text of a schema said. -/
def Schema.outline (s : Schema) : Outline := ⟨s.structs.values.map Struct.declaration, s.exports⟩

end BufferSchema
