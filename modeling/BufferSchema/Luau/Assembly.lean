import BufferSchema.Luau.Template
import BufferSchema.Text.Replace

/-!
# Filling the frame line by line

The frame of a module as a text, in which each slot has a marker on a line of its own. The slots are filled one after
the other: on the line of the slot, the content comes into the place of the marker. The other lines are not looked at.
`Template.fill` puts all contents in at once.
-/

namespace BufferSchema.Luau

namespace Slot

/-- The slots in the order in which they are filled. -/
def all : List Slot := [.file, .author, .date, .brief, .writerModule, .readerModule, .types, .writers, .readers,
  .exportType, .writeSignature, .writeBody, .readSignature, .readBody, .readReturn]

/-- What stands for a slot in the text of the frame. -/
def marker : Slot → String
  | .file => "@slot(file)"
  | .author => "@slot(author)"
  | .date => "@slot(date)"
  | .brief => "@slot(brief)"
  | .writerModule => "@slot(writer_require)"
  | .readerModule => "@slot(reader_require)"
  | .types => "-- @slot(types)"
  | .writers => "-- @slot(writers)"
  | .readers => "-- @slot(readers)"
  | .exportType => "-- @slot(export_type)"
  | .writeSignature => "-- @slot(write_signature)"
  | .writeBody => "-- @slot(write_body)"
  | .readSignature => "-- @slot(read_signature)"
  | .readBody => "-- @slot(read_body)"
  | .readReturn => "-- @slot(read_return)"

/-- The number of the line with the marker of a slot, from 0. -/
def line : Slot → Nat
  | .file => 3
  | .author => 4
  | .date => 5
  | .brief => 6
  | .writerModule => 13
  | .readerModule => 14
  | .types => 20
  | .writers => 22
  | .readers => 24
  | .exportType => 26
  | .writeSignature => 28
  | .writeBody => 31
  | .readSignature => 37
  | .readBody => 39
  | .readReturn => 40

end Slot

/-- The lines of the frame, with the markers of the slots. -/
def frameLines : List String := [
  "--!strict",
  "--[[",
  "    ****************************************************************************",
  "    * @file     : @slot(file)",
  "    * @author   : @slot(author)",
  "    * @date     : @slot(date)",
  "    * @brief    : @slot(brief)",
  "    ****************************************************************************",
  "    * Generated by squishy-compiler. Edit the schema and compile it again",
  "    * instead of changing this file.",
  "    ****************************************************************************",
  "]]",
  "",
  "local writer = require(@slot(writer_require))",
  "local reader = require(@slot(reader_require))",
  "",
  "local sharedBuffer = buffer.create(writer.BUFFER_SIZE)",
  "",
  "local scheme = \x7b\x7d",
  "",
  "-- @slot(types)",
  "",
  "-- @slot(writers)",
  "",
  "-- @slot(readers)",
  "",
  "-- @slot(export_type)",
  "",
  "-- @slot(write_signature)",
  "    local buff = sharedBuffer",
  "    local cursor = 0",
  "-- @slot(write_body)",
  "    local out = buffer.create(cursor)",
  "    buffer.copy(out, 0, buff, 0, cursor)",
  "    return out",
  "end",
  "",
  "-- @slot(read_signature)",
  "    local cursor = 0",
  "-- @slot(read_body)",
  "-- @slot(read_return)",
  "end",
  "",
  "return scheme"]

/-- The frame with the markers of the slots. -/
def frameText : String := String.join (frameLines.map (· ++ "\n"))

/-- The lines with the content of one more slot put in. -/
def fillSlot (content : Slot → String) (lines : List String) (slot : Slot) : List String :=
  lines.modify slot.line (Text.replaceAll [(slot.marker, content slot)])

/-- The frame with the slots filled one after the other. -/
def assemble (content : Slot → String) (slots : List Slot) : String :=
  "\n".intercalate (slots.foldl (fillSlot content) (Text.lines frameText)) ++ "\n"

end BufferSchema.Luau
