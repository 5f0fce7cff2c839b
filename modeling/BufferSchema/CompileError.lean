import BufferSchema.Text.Position

/-!
# Causes of failure

`CompileError` has one constructor for each way in which a compilation can fail, from reading
the file to writing the module. Each cause has a number that never changes, which the command
line uses as exit status, and a message of one line.
-/

namespace BufferSchema

open Text (Position)

/-- Why a compilation failed. -/
inductive CompileError where
  | invalidName (name reason : String)
  | io (detail : String)
  | missingPath (path : String)
  | pathIsDirectory (path : String)
  | wrongExtension (path expected : String)
  | outputNotDirectory (path : String)
  | unknownOperator (lexeme : String) (position : Position)
  | leadingToken (lexeme : String)
  | noTokens
  | exportCount (found : Nat)
  | noStructs
  | noFields
  | exportReferenced (exported : String) (referencedBy : List String)
  | unknownType (name usedIn : String)
  | selfReference (name : String) (fields : List String)
  | exportNotFound (name : String)
  | exportNameExpected (position : Position)
  | tokenAfterStruct (lexeme : String) (position : Position)
  | emptyStruct (name : String)
  | duplicateStruct (name : String) (first second : Position)
  | structNotOpened (position : Position) (found : String)
  | structNameExpected (position : Position)
  | fieldExpected (field : String) (position : Position) (structName : String)
  | duplicateField (structName field : String)
  | fieldNameExpected (position : Position)
  | bracketNotClosed (openedAt : Position) (found : String) (position : Position)
  | mapKeywordExpected (position : Position)
  | braceNotClosed (position : Position)
  | mapValueMissing (position : Position)
  | typeExpected (lexeme : String) (position : Position)
  | builtinStructName (name : String) (position : Position)
  | tokenBeforeField (lexeme : String) (position : Position)
  | cyclicReference (path : List String)
  | invalidArraySize (lexeme : String) (position : Position)
deriving DecidableEq, Repr

namespace CompileError

/-- The number of the cause. -/
def code : CompileError → Nat
  | invalidName .. => 1
  | io .. => 3
  | missingPath .. => 4
  | pathIsDirectory .. => 5
  | wrongExtension .. => 6
  | outputNotDirectory .. => 8
  | unknownOperator .. => 9
  | leadingToken .. => 10
  | noTokens => 11
  | exportCount .. => 12
  | noStructs => 13
  | noFields => 14
  | exportReferenced .. => 15
  | unknownType .. => 16
  | selfReference .. => 17
  | exportNotFound .. => 18
  | exportNameExpected .. => 19
  | tokenAfterStruct .. => 20
  | emptyStruct .. => 21
  | duplicateStruct .. => 22
  | structNotOpened .. => 23
  | structNameExpected .. => 24
  | fieldExpected .. => 25
  | duplicateField .. => 26
  | fieldNameExpected .. => 27
  | bracketNotClosed .. => 28
  | mapKeywordExpected .. => 29
  | braceNotClosed .. => 30
  | mapValueMissing .. => 31
  | typeExpected .. => 32
  | builtinStructName .. => 33
  | tokenBeforeField .. => 34
  | cyclicReference .. => 35
  | invalidArraySize .. => 36

/-- No cause has the number of success. -/
theorem code_pos (e : CompileError) : 0 < e.code := by
  cases e <;> simp [code]

/-- Every number fits the exit status of a process. -/
theorem code_lt (e : CompileError) : e.code < 256 := by
  cases e <;> simp [code]

/-- The cause told in one line. -/
def message : CompileError → String
  | invalidName name reason =>
    s!"given name '{name}' is not in preferred format ^[a-zA-Z_][a-zA-Z0-9_]*$: {reason}"
  | io detail => detail
  | missingPath path => s!"the specified path '{path}' does not exist"
  | pathIsDirectory path => s!"the specified path '{path}' is a directory, not a file"
  | wrongExtension path expected =>
    s!"the file '{path}' does not have any of the required extensions '{expected}'"
  | outputNotDirectory path =>
    s!"the destination directory '{path}' is not valid or not a directory at all"
  | unknownOperator lexeme position => s!"the operator '{lexeme}' at '{position}' is not recognised"
  | leadingToken lexeme =>
    s!"first token of a file must always be a keyword but got '{lexeme}' instead"
  | noTokens => "the input source has not been tokenized yet"
  | exportCount found => s!"expected 1 export statement but got {found} instead"
  | noStructs => "expected at least 1 struct definition but got none"
  | noFields => "expected at least 1 field in the whole file but got none"
  | exportReferenced exported referencedBy =>
    let names := ", ".intercalate referencedBy
    s!"the struct '{exported}' is exported and cannot be referenced by another struct, " ++
      s!"but it was referenced by '{names}'"
  | unknownType name usedIn => s!"the type '{name}' used in struct '{usedIn}' is not recognised"
  | selfReference name fields =>
    let names := ", ".intercalate fields
    s!"a struct cannot reference itself, but struct '{name}' references itself in fields '{names}'"
  | exportNotFound name => s!"did not find a struct named '{name}' to export"
  | exportNameExpected position => s!"expected a name for the export statement at '{position}'"
  | tokenAfterStruct lexeme position =>
    s!"unexpected token '{lexeme}' after struct definition end at '{position}'"
  | emptyStruct name => s!"a struct must have at least 1 field, but struct '{name}' has none"
  | duplicateStruct name first second =>
    s!"another struct named '{name}' already exists at '{first}', " ++
      s!"found a second definition at '{second}'"
  | structNotOpened position found =>
    s!"a struct definition should start with '\x7b' but at '{position}' got '{found}'"
  | structNameExpected position => s!"expected a name for the struct definition at '{position}'"
  | fieldExpected field position structName =>
    s!"expected a field definition after field '{field}' at '{position}' in struct '{structName}' " ++
      "since the struct was not closed yet"
  | duplicateField structName field =>
    s!"another field named '{field}' already exists in struct '{structName}'"
  | fieldNameExpected position => s!"expected a name for the field definition at '{position}'"
  | bracketNotClosed openedAt found position =>
    s!"bracket opened at '{openedAt}' was not closed, got '{found}' at '{position}' instead of ']'"
  | mapKeywordExpected position =>
    s!"expected 'map' or 'smap' after the map value type opened at '{position}'"
  | braceNotClosed position => s!"curly brace opened at '{position}' was not closed"
  | mapValueMissing position => s!"no value type was specified for the map opened at '{position}'"
  | typeExpected lexeme position =>
    s!"expected a valid type at '{position}' but got '{lexeme}' instead"
  | builtinStructName name position =>
    s!"the struct defined at '{position}' can not be named '{name}' since that is a built-in type"
  | tokenBeforeField lexeme position =>
    s!"unexpected token '{lexeme}' after field definition at '{position}'"
  | cyclicReference path =>
    let names := " -> ".intercalate path
    s!"cyclic reference detected, path is '{names}'"
  | invalidArraySize lexeme position =>
    s!"array size '{lexeme}' at '{position}' must be a positive integer"

end CompileError

end BufferSchema
