import BufferSchema.Text.Split

/-!
# File trees

A file tree maps places to directories and files. A place is the list of names that leads to it from
the root, which is always a directory. A path is looked up name by name, from the working directory
or from the root, and every name must be looked for in a directory.
-/

namespace BufferSchema

/-- What stands at a place of a file tree. -/
inductive FileTree.Node where
  | directory
  | file (bytes : List UInt8)
deriving DecidableEq, Repr

/-- Directories and files by their places, and the directory in which relative paths start. -/
structure FileTree where
  nodes : List (List String × FileTree.Node) := []
  workingDirectory : List String := []
deriving DecidableEq, Repr

namespace FileTree

/-- What stands at a place. -/
def node? (t : FileTree) (place : List String) : Option Node :=
  if place = [] then some .directory else t.nodes.lookup place

def isDirectory (t : FileTree) (place : List String) : Bool := t.node? place == some .directory

/-- The greatest number of bytes of a file's name. -/
def maxNameBytes : Nat := 255

/-- The greatest number of bytes of a path. -/
def maxPathBytes : Nat := 4095

/-- Whether a file can have the name. -/
def isFileName (name : String) : Bool :=
  name.utf8ByteSize ≤ maxNameBytes && !name.toList.contains '\x00'

/-- The place that names lead to from `place`. -/
def walk (t : FileTree) (place : List String) : List String → Option (List String)
  | [] => some place
  | name :: names =>
    if !t.isDirectory place then none
    else if name = "" ∨ name = "." then t.walk place names
    else if name = ".." then t.walk place.dropLast names
    else if isFileName name then t.walk (place ++ [name]) names
    else none

/-- The place in which a path starts: the root, or the working directory. -/
def start (t : FileTree) (path : String) : List String :=
  if path.toList.head? = some '/' then [] else t.workingDirectory

/-- The place that a path leads to, whether or not something stands there. The empty path leads
nowhere, nor does a path that is too long. -/
def resolve? (t : FileTree) (path : String) : Option (List String) :=
  if path = "" ∨ maxPathBytes < path.utf8ByteSize then none
  else t.walk (t.start path) (Text.splitAt '/' path)

/-- What stands where a path leads. -/
def lookup? (t : FileTree) (path : String) : Option Node := (t.resolve? path).bind t.node?

/-- The tree with `node` at a place. -/
def set (t : FileTree) (place : List String) (node : Node) : FileTree :=
  { t with nodes := (place, node) :: t.nodes.filter (·.1 != place) }

/-- The tree with a file of the given bytes where `path` leads, or `none` if no file can be there. -/
def write? (t : FileTree) (path : String) (bytes : List UInt8) : Option FileTree :=
  match t.resolve? path with
  | none => none
  | some place => if t.isDirectory place then none else some (t.set place (.file bytes))

end FileTree

end BufferSchema
