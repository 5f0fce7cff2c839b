import BufferSchema.Schema.Basic

/-!
# Luau types

The Luau type of a decoded value, and the type declarations of structs.
-/

namespace BufferSchema

/-- The Luau type of a decoded value of a built-in type. -/
def Builtin.hostType : Builtin → String
  | u8 | i8 | u16 | i16 | u32 | i32 | f16 | f24 | f32 | f64 => "number"
  | vector2 | vector2Norm => "Vector2"
  | vector3 | vector3Norm => "Vector3"
  | vector2Int16 => "Vector2int16"
  | vector3Int16 => "Vector3int16"
  | cframe | cframeEuler | cframeQuat => "CFrame"
  | color3 | color3Hdr => "Color3"
  | string | stringLong => "string"
  | bool => "boolean"

/-- The Luau type of one element. A struct has a type of its own name. -/
def Element.hostType : Element → String
  | builtin b => b.hostType
  | struct name => name

/-- The Luau type of a field. -/
def TypeRef.hostType (t : TypeRef) : String :=
  let element := t.element.hostType
  match t.shape with
  | .scalar => element
  | .fixedArray _ | .dynamicArray => s!"\x7b [number] : {element} \x7d"
  | .map | .shortMap => s!"\x7b [string] : {element} \x7d"

namespace Luau

/-- The line that declares a field. The length of a fixed array stands in a comment. -/
def fieldDeclaration (indent : String) (f : Field) : String :=
  let line := s!"{indent}{f.name} : {f.type.hostType};"
  match f.type.fixedSize? with
  | some count => line ++ s!" -- {count} elements\n"
  | none => line ++ "\n"

/-- The declaration of a struct's type, opened by `keyword`. -/
def typeDeclaration (keyword indent : String) (s : Struct) : String :=
  s!"{keyword} {s.name} = \x7b\n" ++ String.join (s.fields.map (fieldDeclaration indent)) ++ "\x7d"

/-- The structs of the schema among `names`, in the order of `names`. -/
def structsOf (schema : Schema) (names : List String) : List Struct :=
  names.filterMap schema.structs.find?

/-- The type declarations of the named structs, parted by empty lines. -/
def typeDeclarations (schema : Schema) (indent : String) (names : List String) : String :=
  "\n\n".intercalate ((structsOf schema names).map (typeDeclaration "type" indent))

/-- The type declaration of the exported struct, or nothing if there is none. -/
def exportDeclaration (schema : Schema) (indent : String) : String :=
  match schema.exported? with
  | some s => typeDeclaration "export type" indent s
  | none => ""

end Luau

end BufferSchema
