import BufferSchema.Text.Blank
import BufferSchema.Text.Split

/-!
# Laying out a record

The record that the exported reader returns has each entry on a line of its own. The layout works
on the written record: braces at its ends are taken off, what stands between semicolons is an
entry, and entries that hold nothing are left out.
-/

namespace BufferSchema.Luau

/-- The characters without the opening braces in front and the closing braces at the end. -/
def stripBraces (cs : List Char) : List Char :=
  ((cs.dropWhile (· == '\x7b')).reverse.dropWhile (· == '\x7d')).reverse

/-- The entries of a written record. -/
def recordEntries (record : String) : List String :=
  ((Text.pieces ';' (stripBraces (Text.trimChars record.toList))).map Text.trimChars).filter (· != [])
    |>.map String.ofList

/-- The record with each entry after the first on a line of its own, behind `indent` spaces. -/
def layOutRecord (indent : Nat) (record : String) : String :=
  let separator := ";\n" ++ String.ofList (List.replicate indent ' ')
  let entries := separator.intercalate (recordEntries record)
  s!"\x7b {entries}; \x7d"

end BufferSchema.Luau
