import BufferSchema.CompileError
import BufferSchema.Text.Identifier

/-!
# Names

The names of structs, fields and types end up as they are in the generated module, so they must
be identifiers there: letters, digits and underscores of ASCII, no digit in front, not too long,
and no reserved word of Luau.
-/

namespace BufferSchema.Name

/-- The greatest number of bytes of a name. -/
def maxLength : Nat := 64

/-- The words that Luau reserves. -/
def reservedWords : List String :=
  ["and", "break", "do", "else", "elseif", "end", "false", "for", "function", "if", "in",
    "local", "nil", "not", "or", "repeat", "return", "then", "true", "until", "while"]

/-- What is wrong with a name. -/
inductive Fault where
  | tooLong (bytes : Nat)
  | empty
  | badStart (c : Char)
  | badCharacter (c : Char)
  | reserved
deriving DecidableEq, Repr

/-- The fault in words. -/
def Fault.text : Fault → String
  | tooLong bytes => s!"length is longer than {maxLength} characters: {bytes}"
  | empty => "length is 0"
  | badStart c => s!"a name can not start with '{c}'"
  | badCharacter c => s!"'{c}' is not allowed in a name"
  | reserved => "it is a reserved word of Luau"

/-- The first fault of a name, or `none` if it is a good one. -/
def fault? (name : String) : Option Fault :=
  if maxLength < name.utf8ByteSize then some (.tooLong name.utf8ByteSize)
  else match name.toList with
    | [] => some .empty
    | c :: cs =>
      if !Text.isNameStart c then some (.badStart c)
      else match cs.find? (!Text.isNamePart ·) with
        | some d => some (.badCharacter d)
        | none => if name ∈ reservedWords then some .reserved else none

/-- Fails for a name that has a fault. -/
def check (name : String) : Except CompileError Unit :=
  match fault? name with
  | some fault => .error (.invalidName name fault.text)
  | none => .ok ()

theorem check_eq_ok_iff {name : String} : check name = .ok () ↔ fault? name = none := by
  unfold check
  split <;> simp_all

end BufferSchema.Name
