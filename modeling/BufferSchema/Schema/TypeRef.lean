import BufferSchema.Schema.Builtin

/-!
# Field types

The type of a field is an element and a shape: one value, an array of a fixed or of any length,
or a map from strings, whose number of keys is written in more or in fewer bytes.
-/

namespace BufferSchema

/-- What the values of a field are made of. -/
inductive Element where
  | builtin (b : Builtin)
  | struct (name : String)
deriving DecidableEq, Repr

namespace Element

/-- The element with a given name. What is no built-in type is taken for a struct. -/
def ofName (name : String) : Element :=
  match Builtin.ofName? name with
  | some b => builtin b
  | none => struct name

/-- The name in a schema. -/
def name : Element → String
  | builtin b => b.name
  | struct name => name

@[simp] theorem name_ofName (s : String) : (ofName s).name = s := by
  unfold ofName
  split
  · next h => exact (Builtin.ofName?_eq_some_iff.1 h).symm
  · rfl

/-- The name of the struct, if the element is one. -/
def structName? : Element → Option String
  | builtin _ => none
  | struct name => some name

end Element

/-- How the elements of a field are put together. -/
inductive Shape where
  | scalar
  | fixedArray (count : Nat)
  | dynamicArray
  | map
  | shortMap
deriving DecidableEq, Repr

/-- The type of a field. -/
structure TypeRef where
  element : Element
  shape : Shape
deriving DecidableEq, Repr

namespace TypeRef

/-- The name of the element. -/
def name (t : TypeRef) : String := t.element.name

def isArray (t : TypeRef) : Bool :=
  match t.shape with
  | .fixedArray _ | .dynamicArray => true
  | _ => false

def isMap (t : TypeRef) : Bool :=
  match t.shape with
  | .map | .shortMap => true
  | _ => false

def isShortMap (t : TypeRef) : Bool := t.shape == .shortMap

def isStructReference (t : TypeRef) : Bool := t.element.structName?.isSome

/-- The number of elements of an array of fixed length. -/
def fixedSize? (t : TypeRef) : Option Nat :=
  match t.shape with
  | .fixedArray count => some count
  | _ => none

/-- The greatest size that `arraySize` reports. -/
def maxReportedSize : Int := 9223372036854775807

/-- The number of elements of an array of fixed length, at most `maxReportedSize`; for every
other type -1. -/
def arraySize (t : TypeRef) : Int :=
  match t.fixedSize? with
  | some count => min count maxReportedSize
  | none => -1

end TypeRef

end BufferSchema
