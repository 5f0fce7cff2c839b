/-!
# Built-in types

The types that a field can have without a struct of its own, with their spelling in a schema.
-/

namespace BufferSchema

/-- A built-in type. -/
inductive Builtin where
  | u8
  | i8
  | u16
  | i16
  | u32
  | i32
  | f16
  | f24
  | f32
  | f64
  | vector2
  | vector3
  | vector2Int16
  | vector3Int16
  | vector2Norm
  | vector3Norm
  | cframe
  | cframeEuler
  | cframeQuat
  | color3
  | color3Hdr
  | string
  | stringLong
  | bool
deriving DecidableEq, Repr

namespace Builtin

/-- The built-in types in the order in which they are listed. -/
def all : List Builtin :=
  [u8, i8, u16, i16, u32, i32, f16, f24, f32, f64, vector2, vector3, vector2Int16, vector3Int16,
    vector2Norm, vector3Norm, cframe, cframeEuler, cframeQuat, color3, color3Hdr, string, stringLong,
    bool]

/-- The spelling in schemas, which is also the name of the codec. -/
def name : Builtin → String
  | u8 => "u8"
  | i8 => "i8"
  | u16 => "u16"
  | i16 => "i16"
  | u32 => "u32"
  | i32 => "i32"
  | f16 => "f16"
  | f24 => "f24"
  | f32 => "f32"
  | f64 => "f64"
  | vector2 => "vector2"
  | vector3 => "vector3"
  | vector2Int16 => "vector2int16"
  | vector3Int16 => "vector3int16"
  | vector2Norm => "vector2norm"
  | vector3Norm => "vector3norm"
  | cframe => "cframe"
  | cframeEuler => "cframe_e"
  | cframeQuat => "cframe_q"
  | color3 => "color3"
  | color3Hdr => "color3_hdr"
  | string => "string"
  | stringLong => "string_l"
  | bool => "bool"

/-- The built-in type with a given spelling. -/
def ofName? (s : String) : Option Builtin := all.find? (·.name == s)

theorem ofName?_eq_some_iff {s : String} {b : Builtin} : ofName? s = some b ↔ s = b.name := by
  constructor
  · intro h
    have := List.find?_some h
    simpa using (beq_iff_eq.1 this).symm
  · rintro rfl
    cases b <;> decide

end Builtin

end BufferSchema
