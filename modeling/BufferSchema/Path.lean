import BufferSchema.Text.Split

/-!
# Paths

A path is a text whose names are parted by slashes. Empty names and names that are a single dot
stand for nothing.
-/

namespace BufferSchema.Path

/-- Whether the path starts at the root. -/
def isAbsolute (path : String) : Bool := path.toList.head? == some '/'

/-- The path of `name` in the directory `dir`. A name that is an absolute path stands for itself, and
in an empty directory a name is a path already. A slash is put in where there is none. -/
def join (dir name : String) : String :=
  if isAbsolute name then name
  else if dir.toList = [] ∨ dir.toList.getLast? = some '/' then dir ++ name
  else dir ++ "/" ++ name

/-- The names of a path that stand for something. -/
def names (path : String) : List String :=
  (Text.splitAt '/' path).filter fun name => name != "" && name != "."

/-- What stands behind the last dot of a file name, if something stands before that dot. -/
def extensionOfName? (name : String) : Option String :=
  let behind := (name.toList.reverse.takeWhile (· != '.')).reverse
  let before := (name.toList.reverse.dropWhile (· != '.')).reverse.dropLast
  if before = [] then none else some (String.ofList behind)

/-- The extension of the file that a path names. -/
def extension? (path : String) : Option String :=
  match (names path).getLast? with
  | some name => if name = ".." then none else extensionOfName? name
  | none => none

end BufferSchema.Path
