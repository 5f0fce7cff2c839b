/-!
# The frame of a module

A generated module has a fixed frame with slots in it. `Template` keeps the frame as the texts
between the slots, so a content that is put into a slot cannot be taken for a slot itself.
-/

namespace BufferSchema.Luau

/-- A place in the frame that is filled for each module. -/
inductive Slot where
  | file
  | author
  | date
  | brief
  | writerModule
  | readerModule
  | types
  | writers
  | readers
  | exportType
  | writeSignature
  | writeBody
  | readSignature
  | readBody
  | readReturn
deriving DecidableEq, Repr

/-- A part of a frame: text, or a slot. -/
inductive Part where
  | text (s : String)
  | slot (s : Slot)
deriving DecidableEq, Repr

/-- A frame. -/
abbrev Template := List Part

namespace Template

/-- The frame with every slot filled. -/
def fill (content : Slot → String) (t : Template) : String :=
  String.join <| t.map fun
    | .text s => s
    | .slot s => content s

/-- The frame of a module that writes and reads the records of a schema. -/
def codecModule : Template := [
  .text "--!strict\n",
  .text "--[[\n",
  .text "    ****************************************************************************\n",
  .text "    * @file     : ", .slot .file, .text "\n",
  .text "    * @author   : ", .slot .author, .text "\n",
  .text "    * @date     : ", .slot .date, .text "\n",
  .text "    * @brief    : ", .slot .brief, .text "\n",
  .text "    ****************************************************************************\n",
  .text "    * Generated by squishy-compiler. Edit the schema and compile it again\n",
  .text "    * instead of changing this file.\n",
  .text "    ****************************************************************************\n",
  .text "]]\n",
  .text "\n",
  .text "local writer = require(", .slot .writerModule, .text ")\n",
  .text "local reader = require(", .slot .readerModule, .text ")\n",
  .text "\n",
  .text "local sharedBuffer = buffer.create(writer.BUFFER_SIZE)\n",
  .text "\n",
  .text "local scheme = \x7b\x7d\n",
  .text "\n",
  .slot .types, .text "\n",
  .text "\n",
  .slot .writers, .text "\n",
  .text "\n",
  .slot .readers, .text "\n",
  .text "\n",
  .slot .exportType, .text "\n",
  .text "\n",
  .slot .writeSignature, .text "\n",
  .text "    local buff = sharedBuffer\n",
  .text "    local cursor = 0\n",
  .slot .writeBody, .text "\n",
  .text "    local out = buffer.create(cursor)\n",
  .text "    buffer.copy(out, 0, buff, 0, cursor)\n",
  .text "    return out\n",
  .text "end\n",
  .text "\n",
  .slot .readSignature, .text "\n",
  .text "    local cursor = 0\n",
  .slot .readBody, .text "\n",
  .slot .readReturn, .text "\n",
  .text "end\n",
  .text "\n",
  .text "return scheme\n"]

end Template

end BufferSchema.Luau
