import BufferSchema.Schema.TypeRef

/-!
# Codecs

A codec is how the values of a field are laid out in a buffer. Each codec has a writer and a reader:
functions of the runtime for built-in types and collections, generated helpers for structs. A
collection is told the function of its elements, and its length where that is fixed.
-/

namespace BufferSchema

/-- The two ways through a buffer. -/
inductive Direction where
  | write
  | read
deriving DecidableEq, Repr

namespace Direction

/-- The word in the names of functions. -/
def verb : Direction → String
  | write => "write"
  | read => "read"

/-- The runtime module. -/
def runtime : Direction → String
  | write => "writer"
  | read => "reader"

/-- The function of the runtime called `name`. -/
def runtimeFunction (d : Direction) (name : String) : String := s!"{d.runtime}.{d.verb}_{name}"

/-- The helper of the struct called `name`. -/
def helper (d : Direction) (name : String) : String := s!"{d.verb}_{name}"

/-- The function of one element. -/
def elementFunction (d : Direction) : Element → String
  | .builtin b => d.runtimeFunction b.name
  | .struct name => d.helper name

end Direction

/-- How the values of a field are laid out in a buffer. -/
inductive Codec where
  | single (element : Element)
  | array (element : Element) (count : Nat)
  | dynamicArray (element : Element)
  /-- Truth values, eight to a byte. -/
  | bits (count : Nat)
  | dynamicBits
  | map (element : Element)
  /-- A map whose number of keys is written in fewer bytes. -/
  | shortMap (element : Element)
deriving DecidableEq, Repr

/-- The codec of a field type. Arrays of truth values are packed into bits. -/
def TypeRef.codec (t : TypeRef) : Codec :=
  match t.shape, t.element with
  | .scalar, element => .single element
  | .fixedArray count, .builtin .bool => .bits count
  | .fixedArray count, element => .array element count
  | .dynamicArray, .builtin .bool => .dynamicBits
  | .dynamicArray, element => .dynamicArray element
  | .map, element => .map element
  | .shortMap, element => .shortMap element

namespace Codec

/-- The function of a codec. -/
def function (d : Direction) : Codec → String
  | single element => d.elementFunction element
  | array .. => d.runtimeFunction "array"
  | dynamicArray _ => d.runtimeFunction "dynamicArray"
  | bits _ => d.runtimeFunction "boolArray"
  | dynamicBits => d.runtimeFunction "dynamicBoolArray"
  | map _ => d.runtimeFunction "map"
  | shortMap _ => d.runtimeFunction "smap"

/-- What the function takes beside the buffer, the cursor and the value. -/
def arguments (d : Direction) : Codec → List String
  | single _ | dynamicBits => []
  | array element count => [d.elementFunction element, toString count]
  | bits count => [toString count]
  | dynamicArray element | map element | shortMap element => [d.elementFunction element]

end Codec

end BufferSchema
