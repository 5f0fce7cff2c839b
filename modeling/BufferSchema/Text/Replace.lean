import BufferSchema.Text.Split

/-!
# Lines of a text, and texts that stand for others

`lines` takes a text apart at its line ends. `replaceAll` puts other texts in the place of given ones, which are found
from the left and do not overlap.
-/

namespace BufferSchema.Text

/-- A line without the carriage return in front of its line feed. -/
def stripReturn (l : String) : String := if l.toList.getLast? = some '\r' then String.ofList l.toList.dropLast else l

/-- The lines of a text. What stands behind the last line feed is a line if it is not empty. -/
def lines (s : String) : List String :=
  let parts := splitAt '\n' s
  parts.dropLast.map stripReturn ++ parts.getLast?.toList.filter (· != "")

/-- Puts the second part of a pair in wherever the first part stands, going from the left. The first pair that fits a
place is taken, and what it fits is passed over: `skip` of these characters are still to come. No pair may have an
empty first part. -/
def replaceChars (pairs : List (List Char × List Char)) : Nat → List Char → List Char
  | _, [] => []
  | skip + 1, _ :: cs => replaceChars pairs skip cs
  | 0, c :: cs =>
    match pairs.find? fun pair => pair.1.isPrefixOf (c :: cs) with
    | some pair => pair.2 ++ replaceChars pairs (pair.1.length - 1) cs
    | none => c :: replaceChars pairs 0 cs

/-- The text with the second part of a pair put in wherever the first part stands. -/
def replaceAll (pairs : List (String × String)) (s : String) : String :=
  String.ofList (replaceChars (pairs.map fun pair => (pair.1.toList, pair.2.toList)) 0 s.toList)

end BufferSchema.Text
