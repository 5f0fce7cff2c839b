import BufferSchema.Luau.Module
import BufferSchema.Proofs.Luau.Record

/-!
# The lines of a module

A module is made of chunks: lines of its frame, types, helpers and the two functions that it exports. Every
chunk stands for some lines, and the lines of all chunks, one behind the other, are the text of the module.
-/

namespace BufferSchema.Luau

open Text (written written_append)

/-! Lines of statements, types and records. -/

theorem written_below {indent : String} {ls : List String} (h : ls ≠ []) :
    written (ls.map (indent ++ ·)) = indent ++ below indent ls ++ "\n" := by
  induction ls with
  | nil => exact absurd rfl h
  | cons l ls ih =>
    cases ls with
    | nil => simp [below]
    | cons m ms =>
      have hrest := ih (List.cons_ne_nil m ms)
      rw [below] at hrest ⊢
      rw [List.map_cons, Text.written_cons, hrest, String.intercalate_cons_cons]
      simp only [String.append_assoc]

/-- The line that declares a field, without its end. -/
def fieldLine (indent : String) (f : Field) : String :=
  let line := indent ++ f.name ++ " : " ++ f.type.hostType ++ ";"
  match f.type.fixedSize? with
  | some count => line ++ " -- " ++ toString count ++ " elements"
  | none => line

theorem fieldDeclaration_eq (indent : String) (f : Field) :
    fieldDeclaration indent f = fieldLine indent f ++ "\n" := by
  unfold fieldDeclaration fieldLine
  cases f.type.fixedSize? with
  | none => simp [toString]
  | some count =>
    have hend : " elements\n" = " elements" ++ "\n" := by decide
    simp [toString, String.append_assoc, hend, -String.reduceAppend]

theorem written_fieldLines (indent : String) (fs : List Field) :
    Text.written (fs.map (fieldLine indent)) = String.join (fs.map (fieldDeclaration indent)) := by
  rw [Text.written, List.map_map]
  exact congrArg String.join (List.map_congr_left fun f _ => (fieldDeclaration_eq indent f).symm)

/-- The lines of a record behind `start`, one for each entry. -/
def recordLines (spaces start : String) : List String → List String
  | [] => [start ++ "; \x7d"]
  | [entry] => [start ++ entry ++ "; \x7d"]
  | entry :: entries => (start ++ entry ++ ";") :: recordLines spaces spaces entries

theorem recordLines_cons_cons (spaces start entry next : String) (entries : List String) :
    recordLines spaces start (entry :: next :: entries) =
      (start ++ entry ++ ";") :: recordLines spaces spaces (next :: entries) :=
  rfl

theorem written_recordLines (spaces start : String) (entries : List String) :
    written (recordLines spaces start entries) =
      start ++ (";\n" ++ spaces).intercalate entries ++ "; \x7d" ++ "\n" := by
  induction entries generalizing start with
  | nil => simp [recordLines]
  | cons entry entries ih =>
    cases entries with
    | nil => simp [recordLines]
    | cons next entries =>
      have hend : ";\n" = ";" ++ "\n" := by decide
      rw [recordLines_cons_cons, Text.written_cons, ih, String.intercalate_cons_cons, hend]
      simp only [String.append_assoc]

/-- Each line of a record holds one entry. -/
theorem exists_of_mem_recordLines {spaces start l : String} {entries : List String} (hne : entries ≠ [])
    (h : l ∈ recordLines spaces start entries) : ∃ entry ∈ entries, ∃ ending ∈ [";", "; \x7d"],
      l = start ++ (entry ++ ending) ∨ l = spaces ++ (entry ++ ending) := by
  induction entries generalizing start with
  | nil => exact absurd rfl hne
  | cons entry entries ih =>
    cases entries with
    | nil =>
      rw [recordLines, List.mem_singleton] at h
      exact ⟨entry, List.mem_cons_self, "; \x7d", by simp, .inl (h.trans (String.append_assoc ..))⟩
    | cons next entries =>
      rw [recordLines_cons_cons, List.mem_cons] at h
      rcases h with rfl | h
      · exact ⟨entry, List.mem_cons_self, ";", by simp, .inl (String.append_assoc ..)⟩
      · obtain ⟨e, he, ending, hending, hl⟩ := ih (List.cons_ne_nil next entries) h
        exact ⟨e, List.mem_cons_of_mem entry he, ending, hending, .inr (or_self_iff.1 hl)⟩

/-! Chunks. -/

/-- The statement of a step, in the function of the given direction. -/
def Step.statement (s : Step) : Direction → Statement
  | .write => s.write
  | .read => s.read

/-- The statements of a function of the given direction. -/
def Body.statements (b : Body) : Direction → List Statement
  | .write => b.writes
  | .read => b.reads

/-- A part of a module. -/
inductive Chunk where
  /-- A line of the frame. -/
  | line (text : String)
  /-- The type of a struct, which may be exported. -/
  | type (exported : Bool) (t : Struct)
  /-- The helper of a struct. -/
  | helper (d : Direction) (t : Struct)
  /-- The function for the records of the exported struct. -/
  | entry (d : Direction) (t : Struct)
deriving DecidableEq

namespace Chunk

/-- The words that open a type. -/
def keyword (exported : Bool) : String := if exported then "export type" else "type"

/-- What a helper takes and returns. -/
def helperParameters (name : String) : Direction → String
  | .write => "buff : buffer, cursor : number, input : " ++ name ++ ") : number"
  | .read => "buff : buffer, cursor : number) : (number, " ++ name ++ ")"

/-- The first line. -/
def head : Chunk → String
  | line text => text
  | type exported t => keyword exported ++ " " ++ t.name ++ " = \x7b"
  | helper d t => "local function " ++ d.helper t.name ++ "(" ++ helperParameters t.name d
  | entry .write t => "function scheme.write(input : " ++ t.name ++ ") : buffer"
  | entry .read t => "function scheme.read(buff : buffer) : " ++ t.name

/-- What a helper returns at its end. -/
def returned (t : Struct) : Direction → String
  | .write => "return cursor"
  | .read => "return cursor, " ++ (Body.ofStruct t).record

/-- The lines of the statements of a function's body. -/
def statementLines (c : Config) (d : Direction) (t : Struct) : List String :=
  ((Body.ofStruct t).statements d).map (c.indent ++ ·.text)

/-- The lines of an exported function in front of its statements. -/
def entryOpening : Direction → List String
  | .write => ["    local buff = sharedBuffer", "    local cursor = 0"]
  | .read => ["    local cursor = 0"]

/-- The lines of the record that the exported reader returns. -/
def returnLines (c : Config) (t : Struct) : List String :=
  recordLines (String.ofList (List.replicate c.returnIndent ' ')) (c.indent ++ "return \x7b ")
    ((Body.ofStruct t).steps.map Step.binding)

/-- The lines of an exported function behind its statements. -/
def entryClosing (c : Config) (t : Struct) : Direction → List String
  | .write =>
    ["    local out = buffer.create(cursor)", "    buffer.copy(out, 0, buff, 0, cursor)", "    return out", "end"]
  | .read => returnLines c t ++ ["end"]

/-- The lines behind the first one. -/
def tail (c : Config) : Chunk → List String
  | line _ => []
  | type _ t => t.fields.map (fieldLine c.indent) ++ ["\x7d"]
  | helper d t => statementLines c d t ++ [c.indent ++ returned t d, "end"]
  | entry d t => entryOpening d ++ statementLines c d t ++ entryClosing c t d

/-- The lines of a chunk. -/
def lines (c : Config) (ch : Chunk) : List String := ch.head :: ch.tail c

end Chunk

/-- Chunks, each followed by an empty line. Where there are none, as many empty lines as given. -/
def paragraphs (blank : Nat) : List Chunk → List Chunk
  | [] => List.replicate blank (.line "")
  | ch :: chs => (ch :: chs).flatMap fun ch => [ch, .line ""]

/-- The lines in front of the first type. -/
def headerLines (content : Slot → String) : List String :=
  ["--!strict", "--[[",
    "    ****************************************************************************",
    "    * @file     : " ++ content .file,
    "    * @author   : " ++ content .author,
    "    * @date     : " ++ content .date,
    "    * @brief    : " ++ content .brief,
    "    ****************************************************************************",
    "    * Generated by squishy-compiler. Edit the schema and compile it again",
    "    * instead of changing this file.",
    "    ****************************************************************************",
    "]]", "",
    "local writer = require(" ++ content .writerModule ++ ")",
    "local reader = require(" ++ content .readerModule ++ ")", "",
    "local sharedBuffer = buffer.create(writer.BUFFER_SIZE)", "",
    "local scheme = \x7b\x7d", ""]

/-- The chunks of the module of a schema, whose exported struct is `exported`. -/
def moduleChunks (c : Config) (date : Timestamp) (s : Schema) (exported : Struct) : List Chunk :=
  let ts := structsOf s s.helperOrder
  (headerLines (slotContent c date s exported)).map .line ++ paragraphs 2 (ts.map (.type false)) ++
    paragraphs 1 (ts.map (.helper .write)) ++ [.line ""] ++ paragraphs 1 (ts.map (.helper .read)) ++
    [.line "", .type true exported, .line "", .entry .write exported, .line "", .entry .read exported, .line "",
      .line "return scheme"]

theorem paragraphs_map {blank : Nat} {ts : List Struct} {chunk : Struct → Chunk} (hne : ts ≠ []) :
    paragraphs blank (ts.map chunk) = ts.flatMap fun t => [chunk t, .line ""] := by
  cases ts with
  | nil => exact absurd rfl hne
  | cons t ts =>
    rw [List.map_cons, paragraphs, ← List.map_cons, List.flatMap_map]

theorem mem_paragraphs {blank : Nat} {ch : Chunk} {chs : List Chunk} (h : ch ∈ paragraphs blank chs) :
    ch ∈ chs ∨ ch = .line "" := by
  cases chs with
  | nil => exact .inr (List.eq_of_mem_replicate h)
  | cons first chs =>
    obtain ⟨x, hx, hch⟩ := List.mem_flatMap.1 h
    rcases List.mem_cons.1 hch with rfl | hch
    · exact .inl hx
    · exact .inr (List.mem_singleton.1 hch)

/-- What has to be shown of all chunks of a module. -/
theorem forall_mem_moduleChunks {c : Config} {date : Timestamp} {s : Schema} {exported : Struct} {p : Chunk → Prop}
    (hframe : ∀ l ∈ headerLines (slotContent c date s exported) ++ ["", "return scheme"], p (.line l))
    (htypes : ∀ t ∈ structsOf s s.helperOrder, p (.type false t))
    (hhelpers : ∀ d, ∀ t ∈ structsOf s s.helperOrder, p (.helper d t)) (hexport : p (.type true exported))
    (hentries : ∀ d, p (.entry d exported)) : ∀ ch ∈ moduleChunks c date s exported, p ch := by
  have hblank : p (.line "") := hframe "" (by simp)
  have hparagraphs : ∀ (blank : Nat) (f : Struct → Chunk), (∀ t ∈ structsOf s s.helperOrder, p (f t)) →
      ∀ ch ∈ paragraphs blank ((structsOf s s.helperOrder).map f), p ch := by
    intro blank f hf ch hch
    rcases mem_paragraphs hch with hch | rfl
    · obtain ⟨t, ht, rfl⟩ := List.mem_map.1 hch
      exact hf t ht
    · exact hblank
  intro ch hch
  unfold moduleChunks at hch
  simp only [List.mem_append, List.mem_cons, List.not_mem_nil, or_false, List.mem_map] at hch
  rcases hch with ((((⟨l, hl, rfl⟩ | hch) | hch) | rfl) | hch) |
    rfl | rfl | rfl | rfl | rfl | rfl | rfl | rfl
  · exact hframe l (List.mem_append_left _ hl)
  · exact hparagraphs 2 _ htypes ch hch
  · exact hparagraphs 1 _ (hhelpers .write) ch hch
  · exact hblank
  · exact hparagraphs 1 _ (hhelpers .read) ch hch
  · exact hblank
  · exact hexport
  · exact hblank
  · exact hentries .write
  · exact hblank
  · exact hentries .read
  · exact hblank
  · exact hframe "return scheme" (by simp)

/-! The text of chunks. -/

theorem fill_codecModule (content : Slot → String) :
    Template.codecModule.fill content =
      written (headerLines content ++
        [content .types, "", content .writers, "", content .readers, "", content .exportType, "",
          content .writeSignature, "    local buff = sharedBuffer", "    local cursor = 0", content .writeBody,
          "    local out = buffer.create(cursor)", "    buffer.copy(out, 0, buff, 0, cursor)", "    return out",
          "end", "", content .readSignature, "    local cursor = 0", content .readBody, content .readReturn, "end",
          "", "return scheme"]) := by
  have hclosing : ")\n" = ")" ++ "\n" := by decide
  have hcons : ∀ (l : String) (ls : List String), written (l :: ls) = l ++ "\n" ++ written ls := by
    intro l ls
    rw [Text.written_cons, String.append_assoc]
  simp only [Template.fill, Template.codecModule, List.map_cons, List.map_nil, String.join_cons, headerLines,
    List.cons_append, List.nil_append, hcons, String.append_assoc, String.reduceAppend]
  rw [hclosing]
  simp only [String.append_assoc]
  rfl

namespace Chunk

variable {c : Config} {t : Struct}

theorem written_lines (c : Config) (ch : Chunk) :
    written (ch.lines c) = ch.head ++ ("\n" ++ written (ch.tail c)) :=
  Text.written_cons _ _

theorem lines_line (c : Config) (text : String) : (line text).lines c = [text] := rfl

theorem head_type (exported : Bool) (t : Struct) :
    (type exported t).head = keyword exported ++ " " ++ t.name ++ " = \x7b" :=
  rfl

theorem tail_type (c : Config) (exported : Bool) (t : Struct) :
    (type exported t).tail c = t.fields.map (fieldLine c.indent) ++ ["\x7d"] :=
  rfl

theorem head_helper (d : Direction) (t : Struct) :
    (helper d t).head = "local function " ++ d.helper t.name ++ "(" ++ helperParameters t.name d :=
  rfl

theorem tail_helper (c : Config) (d : Direction) (t : Struct) :
    (helper d t).tail c = statementLines c d t ++ [c.indent ++ returned t d, "end"] :=
  rfl

theorem tail_entry (c : Config) (d : Direction) (t : Struct) :
    (entry d t).tail c = entryOpening d ++ statementLines c d t ++ entryClosing c t d :=
  rfl

theorem written_type (exported : Bool) :
    written ((type exported t).lines c) =
      typeDeclaration (keyword exported) c.indent t ++ "\n" := by
  have hopen : " = \x7b\n" = " = \x7b" ++ "\n" := by decide
  rw [written_lines, head_type, tail_type, written_append, written_fieldLines, typeDeclaration, hopen]
  simp [toString, String.append_assoc, -String.reduceAppend]

theorem statementLines_write (c : Config) (t : Struct) :
    statementLines c .write t = (Body.ofStruct t).writing.map (c.indent ++ ·) := by
  rw [statementLines, Body.statements, ← Body.text_writes, List.map_map]
  rfl

theorem statementLines_read (c : Config) (t : Struct) :
    statementLines c .read t = (Body.ofStruct t).reading.map (c.indent ++ ·) := by
  rw [statementLines, Body.statements, ← Body.text_reads, List.map_map]
  rfl

theorem written_writerHelper (h : t.Printable) :
    written ((helper .write t).lines c) = writerHelper c.indent t := by
  have hopen : "local function write_" = "local function " ++ "write" ++ "_" := by simp
  have hparameters : "(buff : buffer, cursor : number, input : " =
      "(" ++ "buff : buffer, cursor : number, input : " := by simp
  have hresult : ") : number\n" = ") : number" ++ "\n" := by simp
  have hreturn : "return cursor\n" = "return cursor" ++ "\n" := by simp
  have hend : "end\n" = "end" ++ "\n" := by simp
  have hne : (Body.ofStruct t).writing ≠ [] := by simpa [Body.writing] using Body.steps_ne_nil h.fields_ne_nil
  rw [written_lines, head_helper, tail_helper, written_append, statementLines_write, written_below hne]
  unfold writerHelper returned helperParameters
  simp [Direction.helper_eq, Direction.verb, toString, String.append_assoc,
    hopen, hparameters, hresult, hreturn, hend, -String.reduceAppend]

theorem written_readerHelper (c : Config) (t : Struct) :
    written ((helper .read t).lines c) = readerHelper c.indent t := by
  have hopen : "local function read_" = "local function " ++ "read" ++ "_" := by simp
  have hparameters : "(buff : buffer, cursor : number) : (number, " =
      "(" ++ "buff : buffer, cursor : number) : (number, " := by simp
  have hresult : ")\n" = ")" ++ "\n" := by simp
  have hend : "end\n" = "end" ++ "\n" := by simp
  have hne : (Body.ofStruct t).reading ≠ [] := by simp [Body.reading]
  rw [written_lines, head_helper, tail_helper, written_append, statementLines_read, written_below hne]
  unfold readerHelper returned helperParameters
  simp [Direction.helper_eq, Direction.verb, toString, String.append_assoc,
    hopen, hparameters, hresult, hend, -String.reduceAppend]

theorem flatMap_line (c : Config) (ls : List String) : (ls.map line).flatMap (lines c) = ls := by
  rw [List.flatMap_map]
  exact List.flatMap_singleton' ls

/-- What the body of the exported writer stands for. -/
theorem written_statementLines_write (h : t.Printable) : written (statementLines c .write t) =
    "\n".intercalate ((Body.ofStruct t).writing.map (c.indent ++ ·)) ++ "\n" := by
  have hne : (Body.ofStruct t).writing ≠ [] := by simpa [Body.writing] using Body.steps_ne_nil h.fields_ne_nil
  rw [Text.intercalate_append (by simpa using hne), statementLines_write, written]

theorem written_statementLines_read (c : Config) (t : Struct) : written (statementLines c .read t) =
    "\n".intercalate ((Body.ofStruct t).reading.map (c.indent ++ ·)) ++ "\n" := by
  rw [Text.intercalate_append (by simp [Body.reading]), statementLines_read, written]

theorem written_entry_write (h : t.Printable) : written ((entry .write t).lines c) =
    written ["function scheme.write(input : " ++ t.name ++ ") : buffer", "    local buff = sharedBuffer",
      "    local cursor = 0", "\n".intercalate ((Body.ofStruct t).writing.map (c.indent ++ ·)),
      "    local out = buffer.create(cursor)", "    buffer.copy(out, 0, buff, 0, cursor)", "    return out",
      "end"] := by
  rw [written_lines, tail_entry, written_append, written_append, written_statementLines_write h]
  unfold head entryOpening entryClosing
  simp only [Text.written_cons, String.append_assoc, Text.written_nil, String.empty_append]

theorem written_entry_read (h : t.Printable) : written ((entry .read t).lines c) =
    written ["function scheme.read(buff : buffer) : " ++ t.name, "    local cursor = 0",
      "\n".intercalate ((Body.ofStruct t).reading.map (c.indent ++ ·)),
      c.indent ++ "return " ++ layOutRecord c.returnIndent (Body.ofStruct t).record, "end"] := by
  have hreturn : "return \x7b " = "return " ++ "\x7b " := by simp
  have hentries := recordEntries_record (Body.steps_ne_nil h.fields_ne_nil)
    fun s hs => Body.isIdentifier_of_mem_ofStruct h.fields hs
  rw [written_lines, tail_entry, written_append, written_append, written_statementLines_read]
  unfold head entryOpening entryClosing returnLines layOutRecord
  rw [hentries, written_append, written_recordLines]
  simp [toString, String.append_assoc, Text.written_cons, hreturn, -String.reduceAppend]

end Chunk

/-- Texts with a separator between them and one at the end are paragraphs, if each of them is a chunk. -/
theorem written_paragraphs {c : Config} {blank : Nat} {sep : String} {ts : List Struct} (text : Struct → String)
    (chunk : Struct → Chunk) (hsep : sep = written (List.replicate blank ""))
    (hchunk : ∀ t ∈ ts, text t ++ sep = written ((chunk t).lines c) ++ "\n") :
    sep.intercalate (ts.map text) ++ sep =
      written ((paragraphs blank (ts.map chunk)).flatMap (Chunk.lines c)) := by
  cases ts with
  | nil =>
    rw [List.map_nil, String.intercalate_nil, String.empty_append, hsep, List.map_nil, paragraphs,
      ← List.map_replicate, Chunk.flatMap_line]
  | cons t ts =>
    have hpair (ch : Chunk) : written ([ch, .line ""].flatMap (Chunk.lines c)) = written (ch.lines c) ++ "\n" := by
      rw [List.flatMap_cons, List.flatMap_singleton, written_append, Chunk.lines_line]
      rfl
    have hne : (t :: ts).map text ≠ [] := List.cons_ne_nil _ _
    rw [Text.intercalate_append hne, paragraphs_map (List.cons_ne_nil t ts), List.flatMap_assoc,
      Text.written_flatMap, List.map_map]
    refine congrArg String.join (List.map_congr_left fun u hu => ?_)
    exact (hchunk u hu).trans (hpair (chunk u)).symm

variable {c : Config} {date : Timestamp} {s : Schema} {exported : Struct}

theorem written_types (c : Config) (s : Schema) (names : List String) :
    written [typeDeclarations s c.indent names, ""] =
      written ((paragraphs 2 ((structsOf s names).map (.type false))).flatMap (Chunk.lines c)) := by
  rw [← written_paragraphs (typeDeclaration "type" c.indent) (.type false) (by rfl : "\n\n" = _)]
  · simp [typeDeclarations]
  · intro t _
    rw [Chunk.written_type]
    simp [Chunk.keyword, String.append_assoc]

theorem written_helpers {names : List String} {text : Struct → String} {d : Direction}
    (h : ∀ t ∈ structsOf s names, text t = written ((Chunk.helper d t).lines c)) :
    written ["\n".intercalate (helpers s names text)] =
      written ((paragraphs 1 ((structsOf s names).map (.helper d))).flatMap (Chunk.lines c)) := by
  rw [← written_paragraphs text (.helper d) (by rfl : "\n" = _) fun t ht => congrArg (· ++ "\n") (h t ht)]
  simp [helpers]

/-- The chunks of a module are its text. -/
theorem fill_eq_written (hexported : s.exported? = some exported) (h : exported.Printable)
    (hts : ∀ t ∈ structsOf s s.helperOrder, t.Printable) :
    Template.codecModule.fill (slotContent c date s exported) =
      written ((moduleChunks c date s exported).flatMap (Chunk.lines c)) := by
  have htypes := written_types c s s.helperOrder
  have hwriters := written_helpers fun t ht => (Chunk.written_writerHelper (c := c) (hts t ht)).symm
  have hreaders := written_helpers fun t (_ : t ∈ structsOf s s.helperOrder) =>
    (Chunk.written_readerHelper c t).symm
  have htype : written [exportDeclaration s c.indent] = written ((Chunk.type true exported).lines c) := by
    rw [Chunk.written_type, exportDeclaration, hexported]
    simp [Chunk.keyword]
  rw [fill_codecModule]
  unfold moduleChunks
  simp only [List.flatMap_append, List.flatMap_cons, List.flatMap_nil, written_append, Chunk.flatMap_line,
    Chunk.lines_line, ← htypes, ← hwriters, ← hreaders, ← htype, Chunk.written_entry_write h,
    Chunk.written_entry_read h]
  -- every slot stands for its own lines now, so both sides are the same lines
  simp only [← written_append, List.append_assoc, List.cons_append, List.nil_append, List.append_nil]
  rfl

end BufferSchema.Luau
